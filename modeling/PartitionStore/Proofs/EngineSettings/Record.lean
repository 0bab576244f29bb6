import PartitionStore.EngineSettings.Basic
import PartitionStore.Proofs.EngineRecord.Lines
import PartitionStore.Proofs.SortedMap

/-!
# `PartitionStore.Proofs.EngineSettings.Record`: whether a record reads back

The record that an engine writes has the format flag among the properties that
were set besides, in the order of their names. A property is written as it is,
line breaks and blanks included, so what is read back from its lines may be
something else: nothing at all, or another value of the flag.

`KeepsFormat` are the conditions under which neither happens, and
`readsBack_iff` says that there are no others.
-/

set_option autoImplicit false

namespace PartitionStore.EngineSettings

open EngineRecord Text

/-- The record that an engine writes reads back with the format that was set. -/
def ReadsBack (c : EngineSettings) : Prop :=
  ∃ r, parse? c.record.properties = some r ∧ r.format? = some c.format

/-- A record reads back exactly if what is parsed from its text tells the format. -/
theorem readsBack_iff_bind {c : EngineSettings} :
    c.ReadsBack ↔ (parse? c.record.properties).bind format? = some c.format :=
  Option.bind_eq_some_iff.symm

instance (c : EngineSettings) : Decidable c.ReadsBack := decidable_of_iff' _ readsBack_iff_bind

/-- The lines that a property takes in the text of a record. -/
def propertyLines (property : String × String) : List (List Char) :=
  pieces '\n' (property.1.toList ++ '=' :: property.2.toList)

/-- The properties whose names come after that of the format flag. -/
def propertiesAfterFlag (c : EngineSettings) : List (String × String) :=
  c.properties.toList.filter fun property => compare flagKey property.1 = .lt

/-- The further properties leave the format alone when the record is read back. -/
structure KeepsFormat (c : EngineSettings) : Prop where
  /-- Every line can be read. -/
  readable : ∀ property ∈ c.properties.toList, property.1 ≠ flagKey →
    ∀ line ∈ propertyLines property, Readable line
  /-- No line behind the flag's own sets the flag to anything else. -/
  flagStands : ∀ value, SetsLast (c.propertiesAfterFlag.flatMap propertyLines) flagKey value →
    value = flagText c.format.isPlain

/-! ### The text of a record -/

/-- Each property adds its lines, and the end of the last one is an empty line. -/
theorem pieces_lines (entries : List (String × String)) :
    pieces '\n' (entries.flatMap fun (key, value) => EngineRecord.line key value) =
      entries.flatMap propertyLines ++ [[]] := by
  induction entries with
  | nil => rfl
  | cons entry rest ih =>
      obtain ⟨key, value⟩ := entry
      have hline : EngineRecord.line key value ++
          rest.flatMap (fun (key, value) => EngineRecord.line key value) =
            (key.toList ++ '=' :: value.toList) ++ '\n' ::
              rest.flatMap fun (key, value) => EngineRecord.line key value := by
        simp [EngineRecord.line]
      rw [List.flatMap_cons, hline, pieces_append_separator, ih, List.flatMap_cons,
        List.append_assoc]
      rfl

/-- A property whose name is the flag's is not taken over, any other one is. -/
theorem get?_addProperties (r : EngineRecord) (properties : List (String × String))
    (key : String) :
    (addProperties r properties).get? key =
      if key = flagKey then r.get? key else (properties.reverse.lookup key).or (r.get? key) := by
  -- Each property is set in turn, so of one key the last one stays.
  induction properties generalizing r with
  | nil => simp [addProperties]
  | cons property rest ih =>
      obtain ⟨k, v⟩ := property
      show (addProperties (if k = flagKey then r else r.set k v) rest).get? key = _
      rw [ih, List.reverse_cons, List.lookup_append]
      by_cases hkey : key = flagKey
      · subst hkey
        by_cases hk : k = flagKey
        · simp [hk]
        · simp [hk, EngineRecord.get?, EngineRecord.set,
            SortedMap.get?_insert_of_ne _ _ (Ne.symm hk)]
      · rw [if_neg hkey, if_neg hkey, Option.or_assoc]
        congr 1
        by_cases hk : key = k
        · subst hk
          simp [hkey, EngineRecord.get?, EngineRecord.set]
        · have hb : (key == k) = false := by simpa using hk
          by_cases hflag : k = flagKey
          · simp [if_pos hflag, List.lookup_cons, hb]
          · simp [hflag, List.lookup_cons, hb, EngineRecord.get?, EngineRecord.set,
              SortedMap.get?_insert_of_ne _ _ hk]

/-- A record has the flag and all properties of other names. -/
theorem mem_record_iff {c : EngineSettings} {property : String × String} :
    property ∈ c.record.entries.toList ↔
      property = (flagKey, flagText c.format.isPlain) ∨
        (property ∈ c.properties.toList ∧ property.1 ≠ flagKey) := by
  obtain ⟨key, value⟩ := property
  have hget : c.record.entries.get? key = _ :=
    get?_addProperties (ofFormat c.format) c.properties.toList key
  rw [SortedMap.mem_toList_iff, hget, SortedMap.lookup_reverse_toList, SortedMap.mem_toList_iff]
  by_cases hkey : key = flagKey
  · subst hkey
    simp [EngineRecord.get?, ofFormat, eq_comm]
  · have hnone : (ofFormat c.format).get? key = none := by
      simp [EngineRecord.get?, ofFormat, SortedMap.get?_insert_of_ne _ _ hkey]
    simp [hkey, hnone]

/-- The flag comes behind the properties of smaller names and before those of greater ones. -/
theorem record_toList (c : EngineSettings) :
    c.record.entries.toList =
      c.properties.toList.filter (fun property => compare property.1 flagKey = .lt) ++
        (flagKey, flagText c.format.isPlain) :: c.propertiesAfterFlag := by
  have hbefore : ∀ b ∈ c.properties.toList.filter
      (fun property => compare property.1 flagKey = .lt), compare b.1 flagKey = .lt := by
    simp
  have hafter : ∀ b ∈ c.propertiesAfterFlag, compare flagKey b.1 = .lt := by
    simp [propertiesAfterFlag]
  -- Two ascending lists with the same members are one.
  refine SortedMap.eq_of_mem_iff c.record.entries.ascending ?_ ?_
  · refine List.pairwise_append.2 ⟨c.properties.ascending.filter _,
      List.pairwise_cons.2 ⟨hafter, c.properties.ascending.filter _⟩, ?_⟩
    intro a ha b hb
    rcases List.mem_cons.1 hb with rfl | hb
    · exact hbefore a ha
    · exact Std.TransCmp.lt_trans (hbefore a ha) (hafter b hb)
  · intro property
    rw [mem_record_iff, List.mem_append, List.mem_cons, propertiesAfterFlag, List.mem_filter,
      List.mem_filter, decide_eq_true_eq, decide_eq_true_eq]
    -- A name that is not the flag's comes before it or after it.
    have hne : property.1 ≠ flagKey ↔
        compare property.1 flagKey = .lt ∨ compare flagKey property.1 = .lt := by
      have hgt : compare flagKey property.1 = .lt ↔ compare property.1 flagKey = .gt :=
        Std.OrientedCmp.gt_iff_lt.symm
      rw [hgt, ne_eq, ← (Std.LawfulEqCmp.compare_eq_iff_eq : compare property.1 flagKey = .eq ↔ _)]
      cases compare property.1 flagKey <;> simp
    rw [hne]
    constructor
    · rintro (hflag | ⟨hmem, hlt | hgt⟩)
      · exact .inr (.inl hflag)
      · exact .inl ⟨hmem, hlt⟩
      · exact .inr (.inr ⟨hmem, hgt⟩)
    · rintro (⟨hmem, hlt⟩ | hflag | ⟨hmem, hgt⟩)
      · exact .inr ⟨hmem, .inl hlt⟩
      · exact .inl hflag
      · exact .inr ⟨hmem, .inr hgt⟩

/-! ### Reading it back -/

/-- Every line that is written for the flag sets it. -/
theorem assigns_flag (format : TableFormat) :
    ∀ line ∈ propertyLines (flagKey, flagText format.isPlain),
      Assigns line flagKey (flagText format.isPlain) := by
  have hlines : propertyLines (flagKey, flagText format.isPlain) =
      [flagKey.toList ++ '=' :: (flagText format.isPlain).toList] :=
    pieces_of_not_mem (by cases format <;> decide)
  intro line hline
  rw [hlines, List.mem_singleton] at hline
  subst hline
  refine ⟨?_, _, _, rfl, by decide, by decide, by decide, ?_⟩
  · cases format <;> simp only [IsSkipped] <;> decide
  · cases format <;> decide

/-- The record reads back with the format that was set exactly if the further properties
leave the format alone. -/
theorem readsBack_iff (c : EngineSettings) : c.ReadsBack ↔ c.KeepsFormat := by
  have hlines : pieces '\n' c.record.properties.toList =
      c.record.entries.toList.flatMap propertyLines ++ [[]] := by
    rw [EngineRecord.properties, String.toList_ofList, pieces_lines]
  have hempty : IsSkipped [] := .inl rfl
  have hnone : ∀ later ∈ [[]], ∀ other, ¬Assigns later flagKey other := by
    simpa using fun other ho => ho.1 hempty
  have hflag := assigns_flag c.format
  rw [ReadsBack, exists_parse?_iff, hlines]
  constructor
  · rintro ⟨hread, hlast⟩
    refine ⟨?_, ?_⟩
    · intro property hmem hne line hline
      refine hread line (List.mem_append_left _ (List.mem_flatMap.2 ⟨property, ?_, hline⟩))
      exact mem_record_iff.2 (.inr ⟨hmem, hne⟩)
    · -- The last assignment behind the flag is the last one of all.
      intro value hvalue
      have hwhole : SetsLast (c.record.entries.toList.flatMap propertyLines ++ [[]]) flagKey
          value := by
        rw [record_toList, List.flatMap_append, List.flatMap_cons]
        exact ((hvalue.prepend _).prepend _).append hnone
      exact hwhole.unique hlast
  · rintro ⟨hread, hstands⟩
    refine ⟨?_, ?_⟩
    · intro line hline
      rcases List.mem_append.1 hline with hline | hline
      · obtain ⟨property, hmem, hline⟩ := List.mem_flatMap.1 hline
        rcases mem_record_iff.1 hmem with rfl | ⟨hmem, hne⟩
        · exact .inr ⟨_, _, hflag line hline⟩
        · exact hread property hmem hne line hline
      · exact .inl (List.mem_singleton.1 hline ▸ hempty)
    · rw [record_toList, List.flatMap_append, List.flatMap_cons]
      refine SetsLast.append (.prepend _ ?_) hnone
      by_cases hbehind : ∃ line ∈ c.propertiesAfterFlag.flatMap propertyLines,
          ∃ value, Assigns line flagKey value
      · obtain ⟨value, hvalue⟩ := exists_setsLast hbehind
        exact (hstands value hvalue ▸ hvalue).prepend _
      · -- Nothing behind the flag's own line assigns it again, so that line is the last.
        refine SetsLast.append ?_ fun later hlater other ho =>
          hbehind ⟨later, hlater, other, ho⟩
        obtain ⟨line, hline⟩ := List.exists_mem_of_ne_nil _
          (pieces_ne_nil '\n' (flagKey.toList ++ '=' :: (flagText c.format.isPlain).toList))
        obtain ⟨value, hvalue⟩ := exists_setsLast ⟨line, hline, _, hflag line hline⟩
        obtain ⟨line', hline', hassigns⟩ := hvalue.exists_assigns
        exact ((hflag line' hline').unique hassigns).2 ▸ hvalue

/-- Without further properties nothing is in the format's way. -/
theorem readsBack_of_empty {c : EngineSettings} (h : c.properties = SortedMap.empty) :
    c.ReadsBack := by
  have hnone : c.properties.toList = [] := by
    rw [h]
    rfl
  refine c.readsBack_iff.2 ⟨by simp [hnone], ?_⟩
  intro value hvalue
  rw [propertiesAfterFlag, hnone] at hvalue
  exact absurd hvalue not_setsLast_nil

end PartitionStore.EngineSettings

import PartitionStore.Proofs.StoreFolder.Guarding

/-!
# `PartitionStore.Proofs.StoreFolder.ReachedAt`: folders that may be led to by links

The way to a folder may go through symbolic links, and the folder's own path may end in one. What
is done in the folder is none the worse for that, if there are no links in it (`ReachedAt`).

Before it is made ready it may not be there, and then it is where its path comes to lead once
directories were made on the way. And where its path ends in a link, emptying it takes the link
out and leaves what it led to alone: the way may lead elsewhere then. So what is asked for is that
there are no links in the one place or in the other (`ClearOfLinks`).

* `ClearOfLinks.reachedAt_of_prepare`: such a folder is reached once it was made ready.
* `ReachedAt.of_recordOnce`: writing the record changes nothing but its file and the scratch file.
-/

set_option autoImplicit false

namespace PartitionStore

open FileTree Naming

/-- There are no symbolic links below the location. -/
def FileTree.LinkFreeInside (t : FileTree) (loc : Location) : Prop :=
  ∀ l target, Location.Inside loc l → t.node? l ≠ some (.link target)

namespace StoreFolder

/-- The folder's path leads to the directory at `loc`, through links or not, and there are no
links in that. -/
structure ReachedAt (d : StoreFolder) (loc : Location) (t : FileTree) : Prop where
  text : checkText d.path = .ok ()
  way : t.resolveSteps .followed d.path.steps = .ok (.occupied loc .dir)
  free : t.LinkFree loc

/-- There are no links below the directory that the folder's path points to, whatever is missing on
the way. If the path ends in a link, there are none either below the directory that it points to
without that link. -/
structure ClearOfLinks (d : StoreFolder) (t : FileTree) : Prop where
  inside : ∀ loc, t.PointsTo d.path loc → t.LinkFreeInside loc
  behind : ∀ l target, t.find .itself d.path = .ok (l, .link target) →
    ∀ loc, (t.prune l).PointsTo d.path loc → (t.prune l).LinkFreeInside loc

end StoreFolder

variable {d : StoreFolder} {c : EngineSettings} {loc l : Location} {t u : FileTree} {id : Int32}

/-- A directory is no link itself. -/
theorem FileTree.LinkFreeInside.linkFree (h : t.LinkFreeInside loc)
    (hdir : t.node? loc = some .dir) : t.LinkFree loc := by
  intro l target hl
  by_cases hself : l = loc
  · simp [hself, hdir]
  · exact h l target ⟨hl, hself⟩

/-- Where there are links is the same in trees with the same links. -/
theorem FileTree.LinkFreeInside.congr (h : t.LinkFreeInside loc) (same : SameLinks t u) :
    u.LinkFreeInside loc := fun l target hl => mt (same l target).1 (h l target hl)

namespace StoreFolder

/-! ### Folders that are reached -/

namespace ReachedAt

variable (reached : d.ReachedAt loc t)
include reached

/-- The folder is a directory. -/
theorem isDir : t.node? loc = some .dir := resolveSteps_isIn reached.way

/-- It is found by its path. -/
theorem find : t.find .followed d.path = .ok (loc, .dir) :=
  find_of_resolveSteps (Path.hasRoom_of_checkText reached.text d.endsWithSlash_path) reached.way

/-- Its path points there. -/
theorem points : t.PointsTo d.path loc := pointsTo_of_resolveSteps reached.way

/-- The path of a partition's directory points to its name there. -/
theorem partition (id : Int32) : t.PointsTo (d.partitionPath id) (dirName d.store id :: loc) :=
  reached.points.join (d.isPlainName_dir id) (reached.free.entry _)

/-- What changes at places where no way goes on leaves the folder where it is. -/
theorem frame (links : SameLinks t u) (stuck : ∀ l, u.node? l ≠ t.node? l → t.TakesFile l) :
    d.ReachedAt loc u :=
  ⟨reached.text, resolveSteps_frame stuck (fun _ hl => not_not.1 hl) reached.way fun hloc =>
    (stuck loc hloc).ne_dir reached.isDir, reached.free.congr links⟩

/-- The directory of a partition that is there need not be made. -/
theorem createDirAll_eq (hdir : t.node? (dirName d.store id :: loc) = some .dir)
    (h : Files.createDirAll (d.partitionPath id) t = .ok () u) : u = t := by
  have htext : checkText (d.partitionPath id) = .ok () := by
    cases htext : checkText (d.partitionPath id) with
    | ok _ => rfl
    | error e =>
        cases h.symm.trans (createDirAll_of_checkText (text_partitionPath_ne d id) htext t)
  have hway := resolveSteps_down .followed reached.way (isEntryName_of_node? hdir) (by simp [hdir])
  rw [hdir, ← Path.steps_join (d.isPlainName_dir id)] at hway
  cases h.symm.trans (createDirAll_of_resolveSteps htext hway)
  rfl

/-- Where the metadata partition has its directory, writing the record changes nothing but its file
and the scratch file. -/
theorem of_recordOnce {record : EngineRecord} {wrote : Bool}
    (hdir : t.node? (dirName d.store metadataId :: loc) = some .dir)
    (h : d.recordOnce record t = .ok wrote u) :
    d.ReachedAt loc u ∧
      ∀ l, l ≠ d.recordPlace loc → l ≠ d.recordScratchPlace loc → u.node? l = t.node? l := by
  cases hthere : t.exists d.recordPath with
  | true =>
      cases h.symm.trans (recordOnce_of_exists hthere record)
      exact ⟨reached, fun _ _ _ => rfl⟩
  | false =>
      obtain ⟨v, hmake, hwrite⟩ := exists_of_recordOnce hthere h
      -- The directory is there already: only the file and its scratch file are left to change.
      obtain rfl : v = t := reached.createDirAll_eq hdir hmake
      have points := reached.partition metadataId
      obtain ⟨hrecord, hscratch, takes, takes'⟩ := points.of_replace (reached.free.cons _)
        (by decide) (by decide) (by decide) hwrite
      obtain ⟨w, hreplace, hnode⟩ :=
        replace_ok hrecord hscratch (by decide) takes takes' record.bytes
      cases hwrite.symm.trans hreplace
      have same (l : Location) (hl : l ≠ d.recordPlace loc) (hl' : l ≠ d.recordScratchPlace loc) :
          u.node? l = v.node? l := (hnode l).trans ((if_neg hl).trans (if_neg hl'))
      refine ⟨reached.frame (within_of_replaced (reached.free.cons _) hnode).links
        fun l hl => ?_, same⟩
      by_cases hplace : l = d.recordPlace loc
      · exact hplace ▸ takes
      by_cases hscratch : l = d.recordScratchPlace loc
      · exact hscratch ▸ takes'
      · exact absurd (same l hplace hscratch) hl

end ReachedAt

/-! ### Making a folder ready -/

/-- A folder was made ready in one of three ways: it was missing and was made, it was left as it
is, or it was emptied. -/
theorem prepare_ok_cases (h : Engine.prepare d c t = .ok () u) :
    Files.createDirAll d.path t = .ok () u ∨
      t.isDir d.path = true ∧ (u = t ∨ d.empty t = .ok () u) := by
  by_cases hpresent : d.isThere t = true
  swap
  · exact .inl (createDirAll_of_prepare hpresent h)
  have hdir := isDir_of_prepare hpresent h
  rw [Engine.prepare, Action.bind_of_ok (ensure_of_isDir hdir)] at h
  split at h
  swap
  · cases h
    exact .inr ⟨hdir, .inl rfl⟩
  obtain ⟨verdict, u', hverdict, hpure⟩ := Action.bind_eq_ok_iff.1 h
  cases hpure
  by_cases hkept : ∀ recorded, d.Records t recorded → recorded = c.format
  · have hsame := after_guard_of_kept hkept
    rw [hverdict] at hsame
    exact .inr ⟨hdir, .inl hsame⟩
  · obtain ⟨recorded, hrecorded⟩ := not_forall.1 hkept
    obtain ⟨records, hdiffer⟩ := Classical.not_imp.1 hrecorded
    rw [guard_of_records records, if_neg hdiffer] at hverdict
    obtain ⟨_, v, hempty, hpure⟩ := Action.bind_eq_ok_iff.1 hverdict
    cases hpure
    exact .inr ⟨hdir, .inr hempty⟩

/-- What is removed where a path leads to a directory is that directory, or a link to it. -/
theorem removed_cases {p : Path} {name : String} (hlast : p.steps.getLast? = some (.down name))
    (hslash : p.endsWithSlash = false)
    (hway : t.resolveSteps .followed p.steps = .ok (.occupied loc .dir))
    (h : Files.removeDirAll p t = .ok () u) :
    Gone loc t u ∨ ∃ l target, t.find .itself p = .ok (l, .link target) ∧ u = t.prune l := by
  rcases removeDirAll_cases hlast hslash t with ⟨⟨e, hfail⟩, -⟩ | ⟨l, node, v, hfind, -, hok, gone⟩
  · cases h.symm.trans hfail
  cases h.symm.trans hok
  obtain ⟨-, hspot⟩ := resolveSteps_of_resolveEntry ((find_itself_eq_ok_iff hslash).1 hfind)
  obtain ⟨spot, hspot', hend⟩ := resolveSteps_itself hway
  cases hspot.symm.trans hspot'
  rcases hend with hdir | ⟨l', target, hlink⟩
  · cases hdir
    exact .inl gone
  · cases hlink
    have hprune : Files.removeDirAll p t = .ok () (t.prune l) := by rw [Files.removeDirAll, hfind]
    cases h.symm.trans hprune
    exact .inr ⟨l, target, hfind, rfl⟩

namespace ClearOfLinks

/-- In a tree without links there are none in the folder. -/
theorem of_linkFree (free : t.LinkFree []) : d.ClearOfLinks t where
  inside _ _ l target _ := free l target List.nil_suffix
  behind l target hfind := by
    have hspot := (find_itself_eq_ok_iff d.endsWithSlash_path).1 hfind
    exact absurd (resolveSteps_isIn (resolveSteps_of_resolveEntry hspot).2)
      (free l target List.nil_suffix)

/-- Where nothing but directories was made, the path leads to a directory without links, if it led
to none before. -/
theorem linkFree_of_grown (inside : ∀ loc, t.PointsTo d.path loc → t.LinkFreeInside loc)
    (grown : Grown t u) (hway : u.resolveSteps .followed d.path.steps = .ok (.occupied loc .dir)) :
    u.LinkFree loc := by
  have points := (pointsTo_of_resolveSteps hway).congr grown.sameLinks.symm
  exact ((inside loc points).congr grown.sameLinks).linkFree (resolveSteps_isIn hway)

/-- A folder that was emptied, and is reached, has no links in it: it is new, or it is the root's
own way that led there before, and that is clear. -/
theorem linkFree_of_empty (clear : d.ClearOfLinks t) (hdir : t.isDir d.path = true)
    (h : d.empty t = .ok () u)
    (hway : u.resolveSteps .followed d.path.steps = .ok (.occupied loc .dir)) :
    u.LinkFree loc := by
  obtain ⟨-, place, hway'⟩ := exists_way_of_isDir d.endsWithSlash_path hdir
  obtain ⟨_, s, hremove, hmake⟩ := Action.bind_eq_ok_iff.1 h
  rw [StoreAction.ofFiles_eq_ok_iff] at hremove hmake
  have grown := grown_createDirAll d.path s
  rw [hmake] at grown
  rcases removed_cases d.getLast?_path d.endsWithSlash_path hway' hremove with
    gone | ⟨l, target, hfind, rfl⟩
  · -- It was a directory, and without links in it its removal removes none.
    have free := (clear.inside place (pointsTo_of_resolveSteps hway')).linkFree
      (resolveSteps_isIn hway')
    have links := gone.sameLinks free
    refine linkFree_of_grown (fun l points => ?_) grown hway
    exact (clear.inside l (points.congr links.symm)).congr links
  · exact linkFree_of_grown (clear.behind l target hfind) grown hway

/-- A folder that was made ready is reached, without links in it. -/
theorem reachedAt_of_prepare (clear : d.ClearOfLinks t) (h : Engine.prepare d c t = .ok () u) :
    ∃ loc, d.ReachedAt loc u := by
  obtain ⟨htext, loc, hway⟩ := way_of_prepare h
  refine ⟨loc, htext, hway, ?_⟩
  rcases prepare_ok_cases h with hmake | ⟨hdir, rfl | hempty⟩
  · have grown := grown_createDirAll d.path t
    rw [hmake] at grown
    exact linkFree_of_grown clear.inside grown hway
  · exact linkFree_of_grown clear.inside (.refl u) hway
  · exact clear.linkFree_of_empty hdir hempty hway

end ClearOfLinks

end StoreFolder

end PartitionStore

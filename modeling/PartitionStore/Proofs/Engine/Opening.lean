import PartitionStore.Proofs.Engine.Fresh
import PartitionStore.Proofs.Engine.Keeping

/-!
# `PartitionStore.Proofs.Engine.Opening`: what bringing a store up keeps

Partitions are opened one after another, and some of them may fail. An invariant that
survives every operation of a backend (`Backend.Keeps`) survives that too, and holds of
the registry in the end, or, where the opening fails, of those partitions that were
opened for nothing.

* `Backend.Keeps.openStretch`, `Backend.Keeps.openStretches`: one worker, and all of them.
* `Backend.Keeps.openAll`: the metadata partition and all that are on disk.
* `exists_of_open_error`: at which point an opening fails.
-/

set_option autoImplicit false

namespace PartitionStore

open Naming

variable {b : Backend} {d : StoreFolder} {c : EngineSettings} {removable : Int32 → Prop}
  {inv : Host → List (Int32 × Handle) → Prop} {host : Host} {registry : List (Int32 × Handle)}

/-- What an opening leaves: the invariant holds of the registry with the partitions of all `ids`,
or it failed, and some of them were opened all the same. -/
def Opens (inv : Host → List (Int32 × Handle) → Prop) (registry : List (Int32 × Handle))
    (ids : List Int32) : EStateM.Result StoreError Host (List (Int32 × Handle)) → Prop
  | .ok more host => more.map Prod.fst = ids ∧ inv host (registry ++ more)
  | .error _ host => ∃ more : List (Int32 × Handle),
      (more.map Prod.fst).Sublist ids ∧ inv host (registry ++ more)

/-- What one opening hands on to the next, the two of them have done together. -/
theorem Opens.bind {x y : HostAction (List (Int32 × Handle))} {first second : List Int32}
    (hx : Opens inv registry first (x host))
    (hy : ∀ more host', more.map Prod.fst = first → inv host' (registry ++ more) →
      Opens inv (registry ++ more) second (y host')) :
    Opens inv registry (first ++ second) ((do
      let opened ← x
      let more ← y
      pure (opened ++ more) : HostAction (List (Int32 × Handle))) host) := by
  -- Where the second part fails, what the first one opened is registered too.
  cases hfirst : x host with
  | error e host' =>
      rw [hfirst] at hx
      obtain ⟨opened, hsub, hinv⟩ := hx
      rw [Action.bind_of_error hfirst]
      exact ⟨opened, hsub.trans (List.sublist_append_left ..), hinv⟩
  | ok opened host' =>
      rw [hfirst] at hx
      have hrest := hy opened host' hx.1 hx.2
      rw [Action.bind_of_ok hfirst]
      cases hsecond : y host' with
      | error e host'' =>
          rw [hsecond] at hrest
          obtain ⟨more, hsub, hinv⟩ := hrest
          rw [Action.bind_of_error hsecond]
          refine ⟨opened ++ more, ?_, by rwa [← List.append_assoc]⟩
          rw [List.map_append, hx.1]
          exact (List.Sublist.refl _).append hsub
      | ok more host'' =>
          rw [hsecond] at hrest
          rw [Action.bind_of_ok hsecond]
          exact ⟨by rw [List.map_append, hx.1, hrest.1], by
            rw [← List.append_assoc]
            exact hrest.2⟩

/-- Where the ids on disk are known, the metadata partition is opened and then those of the ids. -/
theorem Restore.openAll_of_idsOnDisk {found : List Int32}
    (hids : b.idsOnDisk d host = .ok found host) :
    Restore.openAll b d c host = (do
      let opened ← (if c.withMetadata then openStretch b d c [metadataId] else pure [] :
        HostAction (List (Int32 × Handle)))
      let more ← (if c.withData then openData b d c (found.filter (· != metadataId)) else pure [] :
        HostAction (List (Int32 × Handle)))
      pure (opened ++ more)) host := by
  rw [openAll, Action.bind_of_ok hids]
  cases c.withMetadata <;> cases c.withData <;> rfl

/-- An opening fails at one of its steps, and leaves what that step leaves. -/
theorem exists_of_open_error {e : StoreError} {host' : Host}
    (h : Engine.open c host = .error e host') :
    StoreFolder.named c.root c.store = .error e ∨
      ∃ d, StoreFolder.named c.root c.store = .ok d ∧
        ((∃ t, Engine.prepare d c host.tree = .error e t ∧ host' = { host with tree := t }) ∨
          ∃ t, Engine.prepare d c host.tree = .ok () t ∧
            (Restore.openAll (Backend.ofKind c.backend) d c { host with tree := t } =
                .error e host' ∨
              ∃ registry host₁ t₁,
                Restore.openAll (Backend.ofKind c.backend) d c { host with tree := t } =
                  .ok registry host₁ ∧
                Engine.keepRecord d c host₁.tree = .error e t₁ ∧
                host' = { host₁ with tree := t₁ })) := by
  rcases Action.bind_eq_error_iff.1 h with hnamed | ⟨d, host₀, hnamed, hrest⟩
  · left
    cases hd : StoreFolder.named c.root c.store with
    | error fault =>
        rw [hd] at hnamed
        cases hnamed
        rfl
    | ok folder =>
        rw [hd] at hnamed
        cases hnamed
  right
  obtain ⟨hd, rfl⟩ : StoreFolder.named c.root c.store = .ok d ∧ host₀ = host := by
    cases hd : StoreFolder.named c.root c.store with
    | error fault =>
        rw [hd] at hnamed
        cases hnamed
    | ok folder =>
        rw [hd] at hnamed
        cases hnamed
        exact ⟨rfl, rfl⟩
  refine ⟨d, hd, ?_⟩
  rcases Action.bind_eq_error_iff.1 hrest with hprepare | ⟨_, host₁, hprepare, hrest⟩
  · exact .inl (HostAction.onTree_eq_error_iff.1 hprepare)
  obtain ⟨t, htree, rfl⟩ := HostAction.onTree_eq_ok_iff.1 hprepare
  refine .inr ⟨t, htree, ?_⟩
  rcases Action.bind_eq_error_iff.1 hrest with hall | ⟨registry, host₂, hall, hrest⟩
  · exact .inl hall
  rcases Action.bind_eq_error_iff.1 hrest with hkeep | ⟨_, host₃, -, hlast⟩
  · obtain ⟨t₁, hrecord, hhost⟩ := HostAction.onTree_eq_error_iff.1 hkeep
    exact .inr ⟨registry, host₂, t₁, hall, hrecord, hhost⟩
  · cases hlast

/-- A stretch is its first partition and the rest. -/
theorem Restore.openStretch_cons (b : Backend) (d : StoreFolder) (c : EngineSettings) (id : Int32)
    (rest : List Int32) : Restore.openStretch b d c (id :: rest) = (do
      let opened ← (do
        let h ← b.attach d (c.spec id)
        pure [(id, h)] : HostAction (List (Int32 × Handle)))
      let more ← Restore.openStretch b d c rest
      pure (opened ++ more)) := by
  rw [openStretch]
  simp only [bind_assoc, pure_bind, List.singleton_append]

namespace Backend.Keeps

variable (keeps : b.Keeps d removable inv)
include keeps

/-- One partition is opened, and the invariant holds with it, or it is not opened and the invariant
holds without it. -/
theorem openOne (h : inv host registry) {id : Int32} (hid : id ∉ registry.map Prod.fst) :
    Opens inv registry [id] ((do
      let h ← b.attach d (c.spec id)
      pure [(id, h)] : HostAction (List (Int32 × Handle))) host) := by
  cases hattach : b.attach d (c.spec id) host with
  | error e host' =>
      rw [Action.bind_of_error hattach]
      exact ⟨[], List.nil_sublist _, by
        rw [List.append_nil]
        exact keeps.attach_error h hid hattach⟩
  | ok handle host' =>
      rw [Action.bind_of_ok hattach]
      exact ⟨rfl, keeps.attach h hid hattach⟩

/-- A stretch is opened up to its first failure, by induction on its ids. -/
theorem openStretch {stretch : List Int32} (h : inv host registry)
    (hnew : (registry.map Prod.fst ++ stretch).Nodup) :
    Opens inv registry stretch (Restore.openStretch b d c stretch host) := by
  induction stretch generalizing host registry with
  | nil => exact ⟨rfl, by rwa [List.append_nil]⟩
  | cons id rest ih =>
      have hid : id ∉ registry.map Prod.fst := fun hmem =>
        (List.nodup_append.1 hnew).2.2 id hmem id (List.mem_cons_self ..) rfl
      rw [Restore.openStretch_cons]
      refine Opens.bind (keeps.openOne h hid) fun more host' hmore hinv => ih hinv ?_
      rw [List.map_append, hmore, List.append_assoc]
      exact hnew

/-- All stretches are opened, each up to its first failure, by induction on the stretches. -/
theorem openStretches {stretches : List (List Int32)} (h : inv host registry)
    (hnew : (registry.map Prod.fst ++ stretches.flatten).Nodup) :
    Opens inv registry stretches.flatten (Restore.openStretches b d c stretches host) := by
  induction stretches generalizing host registry with
  | nil => exact ⟨rfl, by rwa [List.append_nil]⟩
  | cons stretch rest ih =>
      rw [List.flatten_cons, ← List.append_assoc] at hnew
      rw [List.flatten_cons]
      have hfirst := keeps.openStretch (c := c) h (List.nodup_append.1 hnew).1
      simp only [Restore.openStretches]
      cases hopen : Restore.openStretch b d c stretch host with
      | error e host' =>
          -- The other workers go on with what this one has left.
          rw [hopen] at hfirst
          obtain ⟨some, hsub, hinv⟩ := hfirst
          have hrest := ih hinv (by
            rw [List.map_append]
            exact hnew.sublist (((List.Sublist.refl _).append hsub).append_right _))
          simp only
          cases hmore : Restore.openStretches b d c rest host' with
          | ok more host'' =>
              rw [hmore] at hrest
              refine ⟨some ++ more, ?_, by simpa using hrest.2⟩
              rw [List.map_append, hrest.1]
              exact hsub.append_right _
          | error e' host'' =>
              rw [hmore] at hrest
              obtain ⟨more, hsub', hinv'⟩ := hrest
              refine ⟨some ++ more, ?_, by simpa using hinv'⟩
              rw [List.map_append]
              exact hsub.append hsub'
      | ok opened host' =>
          rw [hopen] at hfirst
          have hrest := ih hfirst.2 (by rw [List.map_append, hfirst.1]; exact hnew)
          simp only
          cases hmore : Restore.openStretches b d c rest host' with
          | ok more host'' =>
              rw [hmore] at hrest
              exact ⟨by rw [List.map_append, hfirst.1, hrest.1], by simpa using hrest.2⟩
          | error e' host'' =>
              rw [hmore] at hrest
              obtain ⟨more, hsub, hinv⟩ := hrest
              refine ⟨opened ++ more, ?_, by simpa using hinv⟩
              rw [List.map_append, hfirst.1]
              exact (List.Sublist.refl _).append hsub

/-- A store that comes up has the invariant, with the metadata partition if it is to have that.
What an opening that fails leaves has it too. -/
theorem openAll (h : inv host [])
    (hfound : ∀ host, Action.after (b.idsOnDisk d host) = host)
    (hnodup : ∀ ids host', b.idsOnDisk d host = .ok ids host' → ids.Nodup) :
    ∃ ids, (c.withMetadata = true → metadataId ∈ ids) ∧
      Opens inv [] ids (Restore.openAll b d c host) := by
  have hsame := hfound host
  cases hids : b.idsOnDisk d host with
  | error e host₁ =>
      rw [hids] at hsame
      obtain rfl : host₁ = host := hsame
      rw [Restore.openAll, Action.bind_of_error hids]
      exact ⟨[metadataId], by simp, [], List.nil_sublist _, h⟩
  | ok found host₁ =>
      rw [hids] at hsame
      obtain rfl : host₁ = host := hsame
      rw [Restore.openAll_of_idsOnDisk hids]
      -- The metadata partition is opened first, and is not among those that follow.
      have hothers : (metadataId :: found.filter (· != metadataId)).Nodup :=
        List.nodup_cons.2 ⟨by simp, (hnodup found _ hids).filter _⟩
      refine ⟨(if c.withMetadata then [metadataId] else []) ++
        (if c.withData then found.filter (· != metadataId) else []), fun hmetadata => ?_,
        Opens.bind ?_ fun more host' hmore hinv => ?_⟩
      · simp [hmetadata]
      · split
        · exact keeps.openStretch h (by simp)
        · exact ⟨rfl, h⟩
      · split
        · have hflat := flatten_stretches c.workers (found.filter (· != metadataId))
          have hopen := @openStretches _ _ c _ _ host' more keeps
            (Restore.stretches c.workers (found.filter (· != metadataId))) hinv (by
              rw [hflat, hmore]
              split
              · exact hothers
              · exact hothers.sublist (List.sublist_cons_self ..))
          rwa [hflat] at hopen
        · exact ⟨rfl, by rwa [List.append_nil]⟩

end Backend.Keeps

/-! ### Ids on disk -/

/-- Looking for partitions changes nothing, and finds none twice. -/
theorem StoreFolder.idsOnDisk_nodup (d : StoreFolder) (t : FileTree) :
    Action.after (d.idsOnDisk t) = t ∧ ∀ ids u, d.idsOnDisk t = .ok ids u → ids.Nodup := by
  have hascending : ∀ entries, (idsOf d.store entries).Nodup := by
    intro entries
    refine (SortedMap.keys_ascending _).imp fun {a b} hlt e => ?_
    rw [e] at hlt
    simp at hlt
  rw [idsOnDisk, Action.bind_of_ok (Action.get_apply t)]
  split
  · exact ⟨rfl, fun ids u h => by cases h; exact List.nodup_nil⟩
  split
  · exact ⟨rfl, fun ids u h => by cases h⟩
  · cases hlist : t.list d.path with
    | error e =>
        have hask : StoreAction.io (Files.ask (·.list d.path)) t = .error (.io e) t :=
          StoreAction.io_of_error (by simp only [Files.ask, hlist])
        rw [Action.bind_of_error hask]
        exact ⟨rfl, fun ids u h => by cases h⟩
    | ok entries =>
        rw [Action.bind_of_ok (StoreAction.io_of_ok (Files.ask_of_ok hlist))]
        exact ⟨rfl, fun ids u h => by cases h; exact hascending entries⟩

/-- To look for ids on disk changes nothing, and finds each id once. -/
theorem Backend.idsOnDisk_table (d : StoreFolder) (host : Host) :
    Action.after (Backend.table.idsOnDisk d host) = host ∧
      ∀ ids host', Backend.table.idsOnDisk d host = .ok ids host' → ids.Nodup := by
  obtain ⟨hsame, hnodup⟩ := d.idsOnDisk_nodup host.tree
  show Action.after (HostAction.onTree d.idsOnDisk host) = host ∧
    ∀ ids host', HostAction.onTree d.idsOnDisk host = .ok ids host' → ids.Nodup
  cases hids : d.idsOnDisk host.tree with
  | error e t =>
      rw [hids] at hsame
      rw [HostAction.onTree_of_error hids]
      exact ⟨by rw [Action.after, show t = host.tree from hsame], fun ids host' h => by cases h⟩
  | ok found t =>
      rw [hids] at hsame
      rw [HostAction.onTree_of_ok hids]
      refine ⟨by rw [Action.after, show t = host.tree from hsame], fun ids host' h => ?_⟩
      cases h
      exact hnodup found t hids

end PartitionStore

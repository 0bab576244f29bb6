import PartitionStore.Proofs.Engine.Lifecycle
import PartitionStore.Proofs.Engine.SpentHandles

/-!
# `PartitionStore.Proofs.Engine.Housing`: where the partitions of a used engine are

An engine is used, and so are the handles of its partitions, on a host that is not its own:
others change the file tree, open partitions and use those that are there (`Used`). What cannot
change is where a registered partition keeps its table. That was settled when the engine opened
it, and every partition goes on as what it is.

`Placed good` asks the same of every registered partition. A backend of either kind keeps it up
as long as the partitions that it opens are good, and partitions that go on stay so
(`Backend.Houses`), and then it holds however the engine is used (`Used.placed`,
`placed_of_open`). `BackendKind.houses_home` is the strongest of these: the partition has the
directory of its id, or none with partitions in memory.
-/

set_option autoImplicit false

namespace PartitionStore

open FileTree

/-- An engine and the handles of its partitions are used, on a host that others use as well. These
may do anything to the file tree, open partitions of their own, and use those that are there. -/
inductive Used : Running → Running → Prop where
  | done (r : Running) : Used r r
  | step {r final : Running} {step : SharedStep} (rest : Used (step.next r) final) : Used r final
  | meanwhile {r final : Running} {registry : List (Int32 × Handle)} {host : Host}
      (perm : registry.Perm r.engine.registry) (persists : Persists r.host host)
      (rest : Used ⟨{ r.engine with registry }, host⟩ final) : Used r final

/-- The registered partitions are there, and each is good for its id. -/
def Placed (good : Int32 → Partition → Prop) (host : Host) (registry : List (Int32 × Handle)) :
    Prop :=
  ∀ entry ∈ registry, entry.2 < host.partitions.length ∧ good entry.1 (host.partition entry.2)

/-- The partitions that a backend opens are good, and those that go on stay so. -/
structure Backend.Houses (b : Backend) (d : StoreFolder) (good : Int32 → Partition → Prop) :
    Prop where
  attach : ∀ {spec host h host'}, b.attach d spec host = .ok h host' → ∃ part t,
    h = host.partitions.length ∧ host' = ⟨t, host.partitions ++ [part]⟩ ∧ good spec.id part
  continues : ∀ {id part part'}, Partition.Continues part part' → good id part → good id part'

/-- The partition keeps its table in the directory of the id, whose path is one, or has none if it
is in memory. -/
def BackendKind.Home (k : BackendKind) (d : StoreFolder) (id : Int32) (part : Partition) : Prop :=
  match k with
  | .table => part.storage.dir? = some (d.partitionPath id) ∧
      checkText (d.partitionPath id) = .ok ()
  | .inMemory => part.storage.dir? = none

variable {k : BackendKind} {d : StoreFolder} {good : Int32 → Partition → Prop}
  {c : EngineSettings} {listener : Option Listener} {e : Engine} {host₀ host host' : Host}
  {r final : Running} {registry : List (Int32 × Handle)} {spec : PartitionSpec} {h : Handle}
  {part : Partition} {t u : FileTree}

/-! ### What the backends open -/

/-- A partition is only opened in a directory whose path is one. -/
theorem Partition.checkText_of_openTable {dir : Path} (hne : dir.text ≠ "")
    (hopen : Partition.openTable dir spec t = .ok part u) : checkText dir = .ok () := by
  obtain ⟨_, t₁, hmake, -⟩ := Action.bind_eq_ok_iff.1 hopen
  replace hmake := StoreAction.ofFiles_eq_ok_iff.1 hmake
  rw [Files.createDirAll, if_neg hne] at hmake
  obtain ⟨_, t₂, htext, -⟩ := Action.bind_eq_ok_iff.1 hmake
  rw [Files.ask] at htext
  split at htext
  · rename_i hcheck
    exact hcheck
  · cases htext

/-- The partitions of either kind have their home. -/
theorem BackendKind.houses_home (k : BackendKind) (d : StoreFolder) :
    (Backend.ofKind k).Houses d (k.Home d) := by
  constructor
  case attach =>
    intro spec host h host' hattach
    cases k with
    | inMemory =>
        cases hattach
        exact ⟨Partition.inMemory spec, host.tree, rfl, rfl, rfl⟩
    | table =>
        rcases Backend.attach_table_cases d spec host with ⟨part, t, hopen, hok⟩ | ⟨e, t, herror, -⟩
        · cases hok.symm.trans hattach
          exact ⟨part, t, rfl, rfl, (Partition.placed_of_openTable hopen).2,
            Partition.checkText_of_openTable (StoreFolder.text_partitionPath_ne d _) hopen⟩
        · cases herror.symm.trans hattach
  case continues =>
    intro id part part' continues home
    cases k with
    | inMemory => exact continues.dir.trans home
    | table => exact ⟨continues.dir.trans home.1, home.2⟩

theorem Backend.Houses.mono {b : Backend} {good' : Int32 → Partition → Prop}
    (houses : b.Houses d good) (hsub : ∀ id part, good id part → good' id part)
    (continues : ∀ {id part part'}, Partition.Continues part part' → good' id part →
      good' id part') : b.Houses d good' := by
  refine ⟨fun hattach => ?_, continues⟩
  obtain ⟨part, t, hh, hhost, hgood⟩ := houses.attach hattach
  exact ⟨part, t, hh, hhost, hsub _ _ hgood⟩

/-! ### What is kept -/

namespace Placed

theorem perm (placed : Placed good host registry) {registry' : List (Int32 × Handle)}
    (perm : registry'.Perm registry) : Placed good host registry' :=
  fun entry hentry => placed entry (perm.mem_iff.1 hentry)

/-- Partitions that go on stay good. -/
theorem persists {b : Backend} (houses : b.Houses d good) (placed : Placed good host registry)
    (persists : Persists host host') : Placed good host' registry := by
  intro entry hentry
  obtain ⟨hknown, hgood⟩ := placed entry hentry
  exact ⟨Nat.lt_of_lt_of_le hknown persists.known,
    houses.continues (persists.each entry.2 hknown) hgood⟩

end Placed

/-- What is good is kept by every operation of the backend. -/
theorem Backend.Houses.keeps (houses : (Backend.ofKind k).Houses d good) :
    (Backend.ofKind k).Keeps d (fun _ => True) (Placed good) := by
  -- An operation on a registered partition is confined to its handle, so the ones that are kept
  -- persist.
  constructor
  case perm => exact fun placed perm => placed.perm perm
  case attach =>
    intro host registry spec h host' placed _ hattach entry hentry
    obtain ⟨part, t, rfl, rfl, hgood⟩ := houses.attach hattach
    rcases List.mem_append.1 hentry with hold | hnew
    · exact placed.persists houses (.add host t part) entry hold
    · rw [List.mem_singleton.1 hnew]
      refine ⟨by simp, ?_⟩
      rwa [show (⟨t, host.partitions ++ [part]⟩ : Host).partition host.partitions.length = part
        from Host.partition_add_self host part]
  case attach_error =>
    intro host registry spec e host' placed _ hattach
    cases k with
    | inMemory => cases hattach
    | table =>
        rcases Backend.attach_table_cases d spec host with ⟨part, t, -, hok⟩ | ⟨e, t, herror, -⟩
        · cases hok.symm.trans hattach
        · cases herror.symm.trans hattach
          exact placed.persists houses (Confines.setTree 0 host t).persists
  case put =>
    intro host registry id h key value placed _
    rw [Backend.put_ofKind]
    exact placed.persists houses (HostAction.confines_put h key value host).persists
  case get =>
    intro host registry id h key placed _
    rwa [Backend.get_ofKind, HostAction.after_get]
  case delete =>
    intro host registry id h key placed _
    rw [Backend.delete_ofKind]
    exact placed.persists houses (HostAction.confines_delete h key host).persists
  case sync =>
    intro host registry id h placed _
    rw [Backend.sync_ofKind]
    exact placed.persists houses (HostAction.confines_sync h host).persists
  case drop =>
    intro host registry id h host' placed _ _ hdrop entry hentry
    have confined := HostAction.confines_drop h host
    rw [Backend.drop_ofKind] at hdrop
    rw [hdrop] at confined
    exact placed.persists houses confined.persists entry (List.mem_filter.1 hentry).1
  case drop_error =>
    intro host registry id h e host' placed _ hdrop
    have confined := HostAction.confines_drop h host
    rw [Backend.drop_ofKind] at hdrop
    rw [hdrop] at confined
    exact placed.persists houses confined.persists

/-- A request keeps it, also one that ends the engine's life or comes after that. -/
theorem Backend.Houses.serve (houses : (Backend.ofKind k).Houses r.engine.folder good)
    (hbackend : r.engine.backend = Backend.ofKind k)
    (placed : Placed good r.host r.engine.registry) (request : Request) :
    (request.serve r).2.engine.backend = Backend.ofKind k ∧
      (request.serve r).2.engine.folder = r.engine.folder ∧
      Placed good (request.serve r).2.host (request.serve r).2.engine.registry := by
  rw [← EngineCall.next_request]
  by_cases hphase : r.engine.phase = .opened
  · cases hlast : request.isLast with
    | true =>
        -- Nothing is registered any more.
        obtain ⟨-, hsame, hfolder, hregistry⟩ := EngineCall.next_of_ends hphase hlast
        refine ⟨hsame.trans hbackend, hfolder, ?_⟩
        rw [hregistry]
        exact fun entry hentry => absurd hentry (List.not_mem_nil)
    | false =>
        have live : Live (Backend.ofKind k) r.engine.folder (Placed good) r :=
          ⟨hphase, hbackend, rfl, placed⟩
        have served := houses.keeps.serve live hlast fun _ _ _ _ => trivial
        rw [EngineCall.next_request]
        exact ⟨served.backend, served.folder, served.inv⟩
  · have hkept : (EngineCall.request request).next r = r :=
      EngineCall.next_of_ended (hbackend ▸ Backend.onlyLists_ofKind k) hphase _
    rw [hkept]
    exact ⟨hbackend, rfl, placed⟩

/-- However it is used, an engine has good partitions. -/
theorem Used.placed (used : Used r final)
    (houses : (Backend.ofKind k).Houses r.engine.folder good)
    (hbackend : r.engine.backend = Backend.ofKind k)
    (placed : Placed good r.host r.engine.registry) :
    final.engine.backend = Backend.ofKind k ∧ final.engine.folder = r.engine.folder ∧
      Placed good final.host final.engine.registry := by
  induction used with
  | done r => exact ⟨hbackend, rfl, placed⟩
  | @step r final step rest ih =>
      obtain ⟨hbackend', hfolder, placed'⟩ : (step.next r).engine.backend = Backend.ofKind k ∧
          (step.next r).engine.folder = r.engine.folder ∧
          Placed good (step.next r).host (step.next r).engine.registry := by
        cases step with
        | ask request => exact houses.serve hbackend placed request
        | call h call =>
            exact ⟨hbackend, rfl, placed.persists houses (call.confines h r.host).persists⟩
      obtain ⟨hfinal, hfolder', placed''⟩ := ih (hfolder.symm ▸ houses) hbackend' placed'
      exact ⟨hfinal, hfolder'.trans hfolder, placed''⟩
  | meanwhile perm persists rest ih =>
      exact ih houses hbackend ((placed.persists houses persists).perm perm)

/-- An engine comes up with good partitions. -/
theorem placed_of_open (hopen : Engine.openWith c (Backend.ofKind k) listener host₀ = .ok e host)
    (houses : (Backend.ofKind k).Houses e.folder good) :
    e.backend = Backend.ofKind k ∧ Placed good host e.registry := by
  obtain ⟨d, t, registry, host₁, -, -, hall, -, hpartitions, rfl⟩ := exists_of_openWith hopen
  rw [Engine.folder_reported] at houses
  have hlists := Backend.onlyLists_ofKind k
  have hnodup : ∀ ids host', (Backend.ofKind k).idsOnDisk d { host₀ with tree := t } =
      .ok ids host' → ids.Nodup := by
    intro ids host' hids
    cases k with
    | inMemory =>
        cases hids
        exact List.nodup_nil
    | table => exact (Backend.idsOnDisk_table d _).2 ids host' hids
  have hnone : Placed good { host₀ with tree := t } [] :=
    fun entry hentry => absurd hentry List.not_mem_nil
  obtain ⟨ids, -, opens⟩ := houses.keeps.openAll (c := c) hnone (hlists d) hnodup
  rw [hall] at opens
  refine ⟨Engine.backend_reported .., ?_⟩
  rw [Engine.registry_reported]
  intro entry hentry
  have hplaced := opens.2 entry hentry
  rw [Host.partition, ← hpartitions] at hplaced
  exact hplaced

end PartitionStore

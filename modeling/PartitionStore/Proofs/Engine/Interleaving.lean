import PartitionStore.Proofs.Engine.InStep

/-!
# `PartitionStore.Proofs.Engine.Interleaving`: stores under one root

Stores under one root share the file tree, and nothing else. Each has its own engines and opened
partitions (`StoreMemory`), and is used for its own purposes (`StoreUse`): its folder is asked for
something, an engine is opened or called, a partition is used by its handle. The uses of all stores
follow one another in any order (`SharedTree.answers`).

A store is undisturbed if its answers, its memory and the content of its folder are what they would
be if it had been used alone (`Undisturbed`). All stores are, in a tree without links, if the way to
the root is clear (`StoreFolder.Clear`). It does not lead through the folder of a store then, and it
is there, or some of it is missing and the rest are directories, or it is blocked, by a file or by a
name that is too long. Without that, what one store makes on the way to the root, or removes with
its folder, may show to another one (`not_undisturbed_at_all_roots`).

The proof runs each store alone beside the shared run. One use keeps the two in step
(`StoreUse.respects_run`), and what it changes is confined to the store's own folder, which keeps
all other stores in step with their own runs (`Alike.of_confined`).

* `SharedTree.inStep_next`: one use, for all stores.
* `SharedTree.undisturbed_of_inStep`: any number of uses.
* `undisturbed_of_clear`: from the tree on which they begin.
-/

set_option autoImplicit false

namespace PartitionStore

open FileTree Naming PartitionStore.Action StoreFolder

/-! ### The uses of a store -/

/-- What the folder of a store is asked for. -/
inductive FolderCall where
  | isThere
  | size
  | idsOnDisk
  | readRecord
  | ensure
  | guard (format : TableFormat)
  | recordOnce (record : EngineRecord)
  | remove
  deriving DecidableEq

/-- What a folder answers if it succeeds. -/
inductive FolderReply where
  | flag (answer : Bool)
  | bytes (count : Nat)
  | ids (found : List Int32)
  | record (found : Option EngineRecord)
  | verdict (found : GuardVerdict)
  deriving DecidableEq

/-- The call, made to a folder. -/
def FolderCall.run (d : StoreFolder) : FolderCall → StoreAction FolderReply
  | isThere => do pure (.flag (← StoreAction.observe d.isThere))
  | size => do pure (.bytes (← StoreAction.observe d.size))
  | idsOnDisk => do pure (.ids (← d.idsOnDisk))
  | readRecord => do pure (.record (← d.readRecord))
  | ensure => do pure (.flag (← d.ensure))
  | guard format => do pure (.verdict (← d.guard format))
  | recordOnce record => do pure (.flag (← d.recordOnce record))
  | remove => do pure (.flag (← d.remove))

/-- A host, and the engines that were opened on it. -/
structure StoreState extends Host where
  engines : List Engine

/-- What a store is used for. -/
inductive StoreUse where
  /-- Its folder is asked for something. -/
  | folder (call : FolderCall)
  /-- One more engine is opened, with these settings but for the root and the store. -/
  | openEngine (c : EngineSettings) (listener : Option Listener)
  /-- One of the opened engines is called. -/
  | engine (n : Nat) (call : EngineCall)
  /-- One of the opened engines is asked for the bytes of the store's files. -/
  | engineSize (n : Nat)
  /-- The registry of an engine comes into this order, of which nothing is promised. -/
  | reorder (n : Nat) (registry : List (Int32 × Handle))
  /-- A partition is used by its handle. -/
  | handle (h : Handle) (call : HandleCall)
  /-- A partition is asked for the bytes of its files. -/
  | partitionSize (h : Handle)
  deriving DecidableEq

/-- What a store answers if it succeeds. -/
inductive StoreReply where
  | done
  | folder (reply : FolderReply)
  | engine (reply : Reply ⊕ List Int32)
  | bytes (count : Nat)
  | handle (reply : Reply)
  deriving DecidableEq

/-- The settings for the store of a folder. -/
def EngineSettings.forStore (c : EngineSettings) (d : StoreFolder) : EngineSettings :=
  { c with root := d.root, store := d.store }

namespace StoreUse

/-- An action on the host. -/
def onHost {α : Type} (action : HostAction α) : EStateM StoreError StoreState α := fun s =>
  match action s.toHost with
  | .ok a host => .ok a ⟨host, s.engines⟩
  | .error e host => .error e ⟨host, s.engines⟩

/-- An action on one of the engines. Where there is none nothing is done. -/
def onEngine (n : Nat) (action : EngineAction StoreReply) :
    EStateM StoreError StoreState StoreReply := fun s =>
  match s.engines[n]? with
  | none => .ok .done s
  | some e =>
    match action ⟨e, s.toHost⟩ with
    | .ok reply r => .ok reply ⟨r.host, s.engines.set n r.engine⟩
    | .error e r => .error e ⟨r.host, s.engines.set n r.engine⟩

/-- The store is used. -/
def run (d : StoreFolder) : StoreUse → EStateM StoreError StoreState StoreReply
  | folder call => do pure (.folder (← onHost (HostAction.onTree (call.run d))))
  | openEngine c listener => do
    let e ← onHost (Engine.openWith (c.forStore d) (Backend.ofKind c.backend) listener)
    modify fun s => { s with engines := s.engines ++ [e] }
    pure .done
  | engine n call => onEngine n (do pure (.engine (← call.run)))
  | engineSize n => onEngine n fun r => .ok (.bytes (r.engine.size r.host.tree)) r
  | reorder n registry => onEngine n fun r =>
    if registry.Perm r.engine.registry then
      .ok .done { r with engine := { r.engine with registry } }
    else .ok .done r
  | handle h call => do pure (.handle (← onHost (call.run h)))
  | partitionSize h => do
    let s ← get
    pure (.bytes ((s.partition h).size s.tree))

end StoreUse

/-! ### Stores that share a tree -/

/-- What a store has in memory. -/
structure StoreMemory where
  partitions : List Partition
  engines : List Engine

/-- Stores and the tree that they share. -/
structure SharedTree (ι : Type) where
  tree : FileTree
  memory : ι → StoreMemory

namespace SharedTree

variable {ι : Type}

/-- A tree for which no store has opened anything yet. -/
def ofTree (tree : FileTree) : SharedTree ι := ⟨tree, fun _ => ⟨[], []⟩⟩

/-- What one of the stores works on. -/
def state (w : SharedTree ι) (i : ι) : StoreState :=
  ⟨⟨w.tree, (w.memory i).partitions⟩, (w.memory i).engines⟩

variable [DecidableEq ι]

/-- What one of the stores left. -/
def setState (w : SharedTree ι) (i : ι) (s : StoreState) : SharedTree ι :=
  ⟨s.tree, Function.update w.memory i ⟨s.partitions, s.engines⟩⟩

/-- One of the stores is used, with success or not. -/
def next (stores : ι → StoreFolder) (w : SharedTree ι) (use : ι × StoreUse) : SharedTree ι :=
  w.setState use.1 (after (use.2.run (stores use.1) (w.state use.1)))

/-- The stores are used one after another. -/
def final (stores : ι → StoreFolder) (w : SharedTree ι) (uses : List (ι × StoreUse)) :
    SharedTree ι := uses.foldl (next stores) w

/-- What comes of each use, and whose it is. -/
def answers (stores : ι → StoreFolder) :
    SharedTree ι → List (ι × StoreUse) → List (ι × Except StoreError StoreReply)
  | _, [] => []
  | w, use :: rest =>
    (use.1, answer (use.2.run (stores use.1) (w.state use.1))) ::
      answers stores (w.next stores use) rest

end SharedTree

/-- The entries that belong to one of the stores. -/
def entriesOf {ι α : Type} [DecidableEq ι] (i : ι) (entries : List (ι × α)) : List (ι × α) :=
  entries.filter (·.1 = i)

/-- To one of the stores it makes no difference that the others were used on the tree as well: its
answers, its memory, what its path leads to, and the content of its folder are the same. -/
structure Undisturbed {ι : Type} [DecidableEq ι] (stores : ι → StoreFolder) (t : FileTree)
    (uses : List (ι × StoreUse)) (i : ι) : Prop where
  answers : entriesOf i ((SharedTree.ofTree t).answers stores uses) =
    (SharedTree.ofTree t).answers stores (entriesOf i uses)
  memory : ((SharedTree.ofTree t).final stores uses).memory i =
    ((SharedTree.ofTree t).final stores (entriesOf i uses)).memory i
  found : ((SharedTree.ofTree t).final stores uses).tree.find .itself (stores i).path =
    ((SharedTree.ofTree t : SharedTree ι).final stores (entriesOf i uses)).tree.find .itself
      (stores i).path
  content : ∀ l, (stores i).place <:+ l →
    ((SharedTree.ofTree t).final stores uses).tree.node? l =
      ((SharedTree.ofTree t : SharedTree ι).final stores (entriesOf i uses)).tree.node? l

/-- The way to the root of a store is there, without leading through the store's folder, or it is
missing and so is the folder, or it is blocked. -/
inductive StoreFolder.Clear (d : StoreFolder) (t : FileTree) : Prop
  | there (apart : d.Apart) (dirs : ∀ l, OnWay d.root l → t.node? l = some .dir)
  | missing (apart : d.Apart) (isOpen : t.OpenWay d.path.steps) (absent : t.node? d.place = none)
  | blocked (e : IoError) (blocked : t.BlockedWay d.root.steps e)

variable {d : StoreFolder} {start t : FileTree} {ι : Type} {stores : ι → StoreFolder}

/-! ### One use -/

/-- Two runs of a store are in step: their hosts are, and the same engines were opened, all of the
store. -/
structure StatesInStep (d : StoreFolder) (start : FileTree) (s s' : StoreState) : Prop where
  hosts : HostsInStep d start s.toHost s'.toHost
  engines : s'.engines = s.engines
  own : ∀ e ∈ s.engines, e.Of d

/-- A call on the folder keeps two runs of the store in step, whichever call it is. -/
theorem FolderCall.respects_run (d : StoreFolder) (start : FileTree) (call : FolderCall) :
    Respects (d.InStep start) (call.run d) := by
  cases call with
  | isThere => exact (respects_observe fun _ _ h => h.isThere).bind fun _ => respects_pure _ _
  | size => exact (respects_observe fun _ _ h => h.size).bind fun _ => respects_pure _ _
  | idsOnDisk => exact (respects_idsOnDisk d start).bind fun _ => respects_pure _ _
  | readRecord => exact (respects_readRecord d start).bind fun _ => respects_pure _ _
  | ensure => exact (respects_ensure d start).bind fun _ => respects_pure _ _
  | guard format => exact (respects_guard d start format).bind fun _ => respects_pure _ _
  | recordOnce record => exact (respects_recordOnce d start record).bind fun _ => respects_pure _ _
  | remove => exact (respects_remove d start).bind fun _ => respects_pure _ _

namespace StoreUse

/-- What keeps hosts in step keeps a user's states in step: the engines in memory are left alone. -/
theorem respects_onHost {α : Type} {action : HostAction α}
    (h : Respects (HostsInStep d start) action) :
    Respects (StatesInStep d start) (onHost action) := by
  intro s s' hs
  rcases h.cases hs.hosts with ⟨a, host, host', hr, hr', hhosts⟩ | ⟨e, host, host', hr, hr', hhosts⟩
  · simp only [onHost, hr, hr']
    exact ⟨rfl, hhosts, hs.engines, hs.own⟩
  · simp only [onHost, hr, hr']
    exact ⟨rfl, hhosts, hs.engines, hs.own⟩

/-- What keeps engines in step keeps a user's states in step. The engine of a number is the same in
both runs, or missing in both. -/
theorem respects_onEngine {action : EngineAction StoreReply}
    (h : Respects (RunningInStep d start) action) (n : Nat) :
    Respects (StatesInStep d start) (onEngine n action) := by
  intro s s' hs
  rw [onEngine, onEngine, hs.engines]
  cases hn : s.engines[n]? with
  | none => exact ⟨rfl, hs⟩
  | some e =>
      have running : RunningInStep d start ⟨e, s.toHost⟩ ⟨e, s'.toHost⟩ :=
        ⟨hs.hosts, rfl, hs.own e (List.mem_of_getElem? hn)⟩
      have hset {r r' : Running} (hr : RunningInStep d start r r') : StatesInStep d start
          ⟨r.host, s.engines.set n r.engine⟩ ⟨r'.host, s.engines.set n r'.engine⟩ := by
        refine ⟨hr.hosts, by rw [hr.engine], fun e' he' => ?_⟩
        rcases List.mem_or_eq_of_mem_set he' with hold | hnew
        · exact hs.own e' hold
        · exact hnew ▸ hr.own
      rcases h.cases running with ⟨a, r, r', hr, hr', hrun⟩ | ⟨e, r, r', hr, hr', hrun⟩
      · simp only [hr, hr']
        exact ⟨rfl, hset hrun⟩
      · simp only [hr, hr']
        exact ⟨rfl, hset hrun⟩

/-- An action on a host that succeeds for a user did so on the host. -/
theorem exists_of_onHost {α : Type} {action : HostAction α} {s s' : StoreState} {a : α}
    (h : onHost action s = .ok a s') : ∃ host, action s.toHost = .ok a host := by
  rw [onHost] at h
  cases hrun : action s.toHost with
  | ok b host =>
      rw [hrun] at h
      cases h
      exact ⟨host, rfl⟩
  | error e host =>
      rw [hrun] at h
      cases h

/-- An engine that is opened is put behind all others in both runs, and is one of the store. -/
theorem respects_openEngine (d : StoreFolder) (start : FileTree) (c : EngineSettings)
    (listener : Option Listener) :
    Respects (StatesInStep d start) ((openEngine c listener).run d) := by
  have hnamed : StoreFolder.named (c.forStore d).root (c.forStore d).store = .ok d :=
    dif_pos d.isStoreName
  refine (respects_onHost (Engine.respects_openWith hnamed start c.backend listener)).bind_of
    fun s e s₁ hopen => .bind (fun s s' hs => ⟨rfl, ?_⟩) fun _ => respects_pure _ _
  obtain ⟨host, hopen⟩ := exists_of_onHost hopen
  refine ⟨hs.hosts, congrArg (· ++ [e]) hs.engines, fun e' he' => ?_⟩
  rcases List.mem_append.1 he' with hold | hnew
  · exact hs.own e' hold
  · exact List.mem_singleton.1 hnew ▸ Engine.of_openWith hnamed hopen

/-- A use of a store keeps two runs of it in step. -/
theorem respects_run (d : StoreFolder) (start : FileTree) (use : StoreUse) :
    Respects (StatesInStep d start) (use.run d) := by
  cases use with
  | folder call =>
      exact (respects_onHost (HostAction.respects_onTree (call.respects_run d start))).bind
        fun _ => respects_pure _ _
  | openEngine c listener => exact respects_openEngine d start c listener
  | engine n call =>
      exact respects_onEngine ((call.respects_run d start).bind fun _ => respects_pure _ _) n
  | engineSize n =>
      rw [run]
      refine respects_onEngine ?_ n
      intro r r' hr
      -- A size is a sum over the folder's own part of the tree.
      refine ⟨congrArg (fun count => Except.ok (StoreReply.bytes count)) ?_, hr⟩
      rw [Engine.size, Engine.size, hr.engine, hr.own.folder, hr.hosts.trees.size]
  | reorder n registry =>
      rw [run]
      refine respects_onEngine ?_ n
      intro r r' hr
      dsimp only
      rw [hr.engine]
      split
      · exact ⟨rfl, hr.hosts, rfl, hr.own.folder, hr.own.backend⟩
      · exact ⟨rfl, hr⟩
  | handle h call =>
      exact (respects_onHost (call.respects_run d start h)).bind fun _ => respects_pure _ _
  | partitionSize h =>
      refine respects_get_bind (fun s s' hs => ?_) fun s => respects_pure _ _
      rw [hs.hosts.size h]

end StoreUse

/-! ### Uses in any order -/

namespace SharedTree

/-- To one of the stores the two are the same, and all that it has in memory is its own. -/
structure InStep (stores : ι → StoreFolder) (i : ι) (w alone : SharedTree ι) : Prop where
  alike : (stores i).Alike w.tree alone.tree
  memory : alone.memory i = w.memory i
  partitions : ∀ part ∈ (w.memory i).partitions, part.Of (stores i)
  engines : ∀ e ∈ (w.memory i).engines, e.Of (stores i)

variable [DecidableEq ι] {w alone : SharedTree ι} {i j : ι}

omit [DecidableEq ι] in
/-- The state of a user who shares the tree is in step with that of the same user alone. -/
theorem InStep.states (h : InStep stores i w alone) :
    StatesInStep (stores i) w.tree (w.state i) (alone.state i) :=
  ⟨⟨⟨h.alike, .refl _ _⟩, congrArg StoreMemory.partitions h.memory, h.partitions⟩,
    congrArg StoreMemory.engines h.memory, h.engines⟩

/-- A user has in memory what the last step left there. -/
@[simp] theorem memory_setState_self (w : SharedTree ι) (i : ι) (s : StoreState) :
    (w.setState i s).memory i = ⟨s.partitions, s.engines⟩ := Function.update_self ..

/-- A step of another user changes nothing in a user's memory. -/
theorem memory_setState_of_ne (w : SharedTree ι) (s : StoreState) (h : i ≠ j) :
    (w.setState j s).memory i = w.memory i := Function.update_of_ne h ..

/-- A use of the store itself is answered the same, and changes the store's own folder only. -/
theorem InStep.next_self (h : InStep stores i w alone) (use : StoreUse) :
    answer (use.run (stores i) (alone.state i)) = answer (use.run (stores i) (w.state i)) ∧
      InStep stores i (w.next stores (i, use)) (alone.next stores (i, use)) ∧
      (stores i).Confined w.tree (w.next stores (i, use)).tree := by
  obtain ⟨hanswer, hstates⟩ := use.respects_run (stores i) w.tree _ _ h.states
  refine ⟨hanswer, ⟨hstates.hosts.trees.alike, ?_, ?_, ?_⟩, hstates.hosts.trees.confined⟩
  · rw [next, next, memory_setState_self, memory_setState_self, hstates.engines,
      hstates.hosts.partitions]
  · rw [next, memory_setState_self]
    exact hstates.hosts.own
  · rw [next, memory_setState_self]
    exact hstates.own

/-- A use of another store makes no difference. -/
theorem InStep.next_of_ne (h : InStep stores i w alone) (hne : i ≠ j) (use : StoreUse)
    (hroot : (stores j).root = (stores i).root) (hstore : (stores j).store ≠ (stores i).store)
    (confined : (stores j).Confined w.tree (w.next stores (j, use)).tree)
    (free : (w.next stores (j, use)).tree.LinkFree []) :
    InStep stores i (w.next stores (j, use)) alone := by
  have hmemory : (w.next stores (j, use)).memory i = w.memory i := memory_setState_of_ne _ _ hne
  exact ⟨h.alike.of_confined hroot hstore confined free, hmemory ▸ h.memory,
    hmemory ▸ h.partitions, hmemory ▸ h.engines⟩

/-- One use, while each of the stores is run alone as well. -/
theorem inStep_next {alone : ι → SharedTree ι} (hroot : ∀ i j, (stores i).root = (stores j).root)
    (hstore : ∀ i j, i ≠ j → (stores i).store ≠ (stores j).store)
    (h : ∀ i, InStep stores i w (alone i)) (use : ι × StoreUse) (i : ι) :
    InStep stores i (w.next stores use)
      (Function.update alone use.1 ((alone use.1).next stores use) i) := by
  obtain ⟨-, hself, confined⟩ := (h use.1).next_self use.2
  -- The store that is used goes on when run alone. The others, run alone, stay where they are.
  by_cases hi : i = use.1
  · subst hi
    rw [Function.update_self]
    exact hself
  · rw [Function.update_of_ne hi]
    exact (h i).next_of_ne hi use.2 (hroot _ _) (hstore _ _ (Ne.symm hi)) confined hself.alike.free

/-- Any number of uses. -/
theorem inStep_final (hroot : ∀ i j, (stores i).root = (stores j).root)
    (hstore : ∀ i j, i ≠ j → (stores i).store ≠ (stores j).store) (uses : List (ι × StoreUse))
    {w : SharedTree ι} {alone : ι → SharedTree ι} (h : ∀ i, InStep stores i w (alone i)) (i : ι) :
    entriesOf i (w.answers stores uses) = (alone i).answers stores (entriesOf i uses) ∧
      InStep stores i (w.final stores uses) ((alone i).final stores (entriesOf i uses)) := by
  -- The stores are run alone all together, and one of them goes on at each use.
  induction uses generalizing w alone with
  | nil => exact ⟨rfl, h i⟩
  | cons use rest ih =>
      obtain ⟨hanswers, hfinal⟩ := ih (inStep_next hroot hstore h use)
      by_cases hi : use.1 = i
      · subst hi
        rw [Function.update_self] at hanswers hfinal
        have hself : entriesOf use.1 (use :: rest) = use :: entriesOf use.1 rest :=
          List.filter_cons_of_pos (by simp)
        have hanswer := ((h use.1).next_self use.2).1
        rw [hself, answers, answers, entriesOf, List.filter_cons_of_pos (by simp), hanswer]
        exact ⟨congrArg _ hanswers, hfinal⟩
      · rw [Function.update_of_ne (Ne.symm hi)] at hanswers hfinal
        have hother : entriesOf i (use :: rest) = entriesOf i rest :=
          List.filter_cons_of_neg (by simpa using hi)
        rw [hother, answers, entriesOf, List.filter_cons_of_neg (by simpa using hi)]
        exact ⟨hanswers, hfinal⟩

end SharedTree

/-- A tree is like itself to a store whose way is clear. -/
theorem StoreFolder.Clear.alike (clear : d.Clear t) (free : t.LinkFree []) : d.Alike t t := by
  refine ⟨free, free, fun _ _ => rfl, ?_⟩
  cases clear with
  | there apart dirs => exact .there apart dirs dirs
  | missing apart isOpen absent => exact .missing apart isOpen isOpen absent absent
  | blocked e blocked => exact .blocked e blocked blocked

/-- Stores of different names under one root do not interfere, where the way to the root is clear in
a tree without links. -/
theorem undisturbed_of_clear [DecidableEq ι] (hroot : ∀ i j, (stores i).root = (stores j).root)
    (hstore : ∀ i j, i ≠ j → (stores i).store ≠ (stores j).store) (free : t.LinkFree [])
    (clear : ∀ i, (stores i).Clear t) (uses : List (ι × StoreUse)) (i : ι) :
    Undisturbed stores t uses i := by
  have h (i : ι) : SharedTree.InStep stores i (.ofTree t) (.ofTree t) :=
    ⟨(clear i).alike free, rfl, by simp [SharedTree.ofTree], by simp [SharedTree.ofTree]⟩
  obtain ⟨hanswers, hfinal⟩ := SharedTree.inStep_final hroot hstore uses h i
  exact ⟨hanswers, hfinal.memory.symm, (hfinal.alike.find (stores i).below_path .itself).symm,
    fun l hl => (hfinal.alike.same l hl).symm⟩

/-! ### Two stores with alike names -/

/-- Two stores, the name of one of which could be the directory of a partition of the other. -/
def userStores : Bool → StoreFolder
  | false => ⟨⟨"data"⟩, "users", by decide⟩
  | true => ⟨⟨"data"⟩, "users_1", by decide⟩

/-- One of the stores is written and made durable, while the other one is removed. -/
def userUses : List (Bool × StoreUse) :=
  [(false, .openEngine .default none), (true, .openEngine .default none),
    (false, .engine 0 (.request (.addPartition 1))), (true, .engine 0 (.request (.addPartition 1))),
    (false, .engine 0 (.request (.put 1 [107] [118]))), (true, .engine 0 (.request .removeStore)),
    (false, .engine 0 (.request .sync)), (true, .folder .remove), (false, .engineSize 0)]

/-- In the empty tree the way is clear for both stores. -/
theorem clear_userStores (i : Bool) : (userStores i).Clear FileTree.empty := by
  -- The way to either folder leads through the root of the tree and `data`, and through nothing of
  -- the other one.
  have hway {l : Location} (h : OnWay (userStores i).root l) : l = [] ∨ l = ["data"] := by
    obtain ⟨front, hfront, rfl⟩ := h
    have hsteps : (userStores i).root.steps = [] ++ [.down "data"] := by cases i <;> rfl
    rw [hsteps, List.prefix_concat_iff, List.prefix_nil] at hfront
    rcases hfront with rfl | rfl
    · exact .inr rfl
    · exact .inl rfl
  have hplace : (userStores i).place = [(userStores i).store, "data"] := by cases i <;> rfl
  have absent : FileTree.empty.node? (userStores i).place = none := by cases i <;> rfl
  refine .missing (fun l hl hin => ?_) ⟨fun name hname => ?_, fun front hfront => ?_⟩ absent
  · have hlength := hin.length_le
    rcases hway hl with rfl | rfl <;> simp [hplace] at hlength
  · have hsteps : (userStores i).path.steps = [.down "data", .down (userStores i).store] := by
      cases i <;> rfl
    rw [hsteps, List.mem_cons, List.mem_singleton] at hname
    rcases hname with e | e <;> rw [Step.down.inj e]
    · decide
    · cases i <;> decide
  · rcases onWay_path_iff.1 ⟨front, hfront, rfl⟩ with hroot | hfolder
    · rcases hway hroot with e | e <;> rw [e]
      · exact .inr rfl
      · exact .inl rfl
    · exact .inl (hfolder ▸ absent)

/-- The store that stays finds its folder as if there were no other. -/
theorem undisturbed_users : Undisturbed userStores FileTree.empty userUses false :=
  undisturbed_of_clear (by decide) (by decide) (linkFree_empty []) clear_userStores userUses false

/-- Where the way to the root leads through the folder of one of the stores, the other one is gone
when that folder is removed. -/
theorem not_undisturbed_at_all_roots :
    ¬∀ (stores : Bool → StoreFolder) (t : FileTree),
      (∀ i j, (stores i).root = (stores j).root) →
      (∀ i j, i ≠ j → (stores i).store ≠ (stores j).store) → t.LinkFree [] →
      ∀ uses i, Undisturbed stores t uses i := by
  intro h
  let stores : Bool → StoreFolder
    | false => ⟨⟨"users/.."⟩, "users", by decide⟩
    | true => ⟨⟨"users/.."⟩, "orders", by decide⟩
  let uses : List (Bool × StoreUse) :=
    [(true, .folder .ensure), (false, .folder .remove), (true, .folder .isThere)]
  -- Alone the second store is there at the end. The first one removes the way to it.
  have hanswers := (h stores FileTree.empty (by decide) (by decide) (linkFree_empty []) uses
    true).answers
  exact absurd hanswers (by decide +kernel)

end PartitionStore

import PartitionStore.Proofs.Engine.Opening

/-!
# `PartitionStore.Proofs.Engine.Workers`: workers side by side

`Restore.openData` lets its workers come one after another. Where they work side by side, each of
them still goes through its own stretch in order, up to its first failure, but which of them is the
next to open a partition is up to chance. A `Crew` is workers in the midst of that. A schedule says
whose turn it is each time, and every schedule is possible. A crew that is done answers with the
failure of the first worker that has one, not with the one that came first.

One turn is one opening. The partition's own storage is all that it hangs on, and all that it
changes, so it makes no difference what else goes on meanwhile.

* `stretches?_eq`: sharing the ids out never divides by zero or makes empty stretches.
* `Crew.turn_cases`: what one turn does.
* `Crew.exists_schedule_openStretches`: the workers of `openData` follow one of the schedules.
-/

set_option autoImplicit false

namespace PartitionStore

/-! ### Sharing out the ids -/

namespace Restore

variable {α : Type}

/-- The number in the range from `low` to `high` that is nearest, if there is any in the range. -/
def clamp? (low high n : Nat) : Option Nat :=
  if low ≤ high then some (min (max n low) high) else none

/-- The quotient, rounded up. There is none by zero. -/
def ceilDiv? (n d : Nat) : Option Nat :=
  if d = 0 then none else some (n / d + if n % d = 0 then 0 else 1)

/-- Pieces of `size` items each, the last one shorter if need be. There are none of no items. -/
def pieces? (size : Nat) (items : List α) : Option (List (List α)) :=
  if size = 0 then none else some (stretchesWithin size items.length items)

/-- The stretches of the workers, with a failure where a step on the way to them has no result. -/
def stretches? (workers : Nat) (items : List α) : Option (List (List α)) :=
  if items.isEmpty then some []
  else do
    let busy ← clamp? 1 items.length workers
    if busy = 1 then some [items]
    else do
      let size ← ceilDiv? items.length busy
      pieces? size items

/-- To round up is to add, before dividing, all but one of what is divided by. -/
theorem ceilDiv?_eq {n d : Nat} (hd : 0 < d) : ceilDiv? n d = some ((n + d - 1) / d) := by
  rw [ceilDiv?, if_neg (by omega)]
  have hsplit := Nat.div_add_mod n d
  have hmod := Nat.mod_lt n hd
  have hcomm : n / d * d = d * (n / d) := Nat.mul_comm ..
  congr 1
  symm
  split
  · refine Nat.div_eq_of_lt_le ?_ ?_
    · rw [Nat.add_zero, hcomm]
      omega
    · rw [Nat.add_zero, Nat.add_mul, hcomm]
      omega
  · refine Nat.div_eq_of_lt_le ?_ ?_
    · rw [Nat.add_mul, hcomm]
      omega
    · rw [Nat.add_mul, Nat.add_mul, hcomm]
      omega

/-- No items make no stretches, in whichever number. -/
theorem stretchesWithin_nil (size limit : Nat) :
    stretchesWithin size limit ([] : List α) = [] := by
  cases limit <;> rfl

/-- However many workers are asked for, each step has a result, and the stretches are those that
the workers take. -/
theorem stretches?_eq (workers : Nat) (items : List α) :
    stretches? workers items = some (stretches workers items) := by
  cases items with
  | nil => rfl
  | cons item rest =>
      have hlength : (item :: rest).length = rest.length + 1 := List.length_cons
      rw [stretches?, stretches, stretchSize, clamp?, if_pos (by omega : 1 ≤ (item :: rest).length)]
      simp only [List.isEmpty_cons, Bool.false_eq_true, if_false, Option.bind_eq_bind,
        Option.bind_some]
      split
      · -- A single worker takes all of them.
        rename_i hone
        rw [hone, Nat.add_sub_cancel, Nat.div_one, hlength, stretchesWithin, ← hlength,
          List.take_length, List.drop_length, stretchesWithin_nil]
        rfl
      · rename_i hmany
        have hbusy : 0 < min (max workers 1) (item :: rest).length := by omega
        rw [ceilDiv?_eq hbusy, Option.bind_some, pieces?, if_neg]
        exact (Nat.div_pos (by omega) hbusy).ne'

end Restore

/-! ### Workers -/

/-- A worker on its stretch. -/
structure Worker where
  /-- The ids that it was given. -/
  stretch : List Int32
  /-- The ids that are still before it. -/
  left : List Int32
  /-- The partitions that it opened. -/
  opened : List (Int32 × Handle)
  /-- The failure that it stopped at. -/
  failure? : Option StoreError

/-- Workers that open partitions of one store side by side. -/
structure Crew where
  host : Host
  workers : List Worker
  /-- The ids that were tried so far, in the order of time. -/
  tried : List Int32

namespace Worker

/-- A worker before it begins. -/
def start (stretch : List Int32) : Worker := ⟨stretch, stretch, [], none⟩

/-- Whether the worker has nothing more to do. -/
def isDone (w : Worker) : Bool := w.left.isEmpty || w.failure?.isSome

/-- What a worker that is done answers. -/
def result (w : Worker) : Except StoreError (List (Int32 × Handle)) :=
  match w.failure? with
  | none => .ok w.opened
  | some e => .error e

end Worker

namespace Crew

/-- A crew before it begins, with a worker for each stretch. -/
def start (host : Host) (stretches : List (List Int32)) : Crew :=
  ⟨host, stretches.map Worker.start, []⟩

/-- A worker has its turn: it opens its next partition. Whoever is done stays so. -/
def turn (b : Backend) (d : StoreFolder) (c : EngineSettings) (crew : Crew) (i : Nat) : Crew :=
  match crew.workers[i]? with
  | some ⟨stretch, id :: left, opened, none⟩ =>
    match b.attach d (c.spec id) crew.host with
    | .ok h host =>
      ⟨host, crew.workers.set i ⟨stretch, left, opened ++ [(id, h)], none⟩, crew.tried ++ [id]⟩
    | .error e host =>
      ⟨host, crew.workers.set i ⟨stretch, left, opened, some e⟩, crew.tried ++ [id]⟩
  | _ => crew

/-- The workers have their turns as the schedule says. -/
def run (b : Backend) (d : StoreFolder) (c : EngineSettings) (crew : Crew) (schedule : List Nat) :
    Crew :=
  schedule.foldl (turn b d c) crew

/-- Whether all workers are done. -/
def isDone (crew : Crew) : Bool := crew.workers.all Worker.isDone

/-- The failure of the first worker that has one, or else all partitions. -/
def joined (crew : Crew) : Except StoreError (List (Int32 × Handle)) :=
  (crew.workers.mapM Worker.result).map List.flatten

/-- What a crew that is done comes to. -/
def answer (crew : Crew) : EStateM.Result StoreError Host (List (Int32 × Handle)) :=
  match crew.joined with
  | .ok registry => .ok registry crew.host
  | .error e => .error e crew.host

end Crew

variable {b : Backend} {d : StoreFolder} {c : EngineSettings} {host host' : Host}
  {front back : List Worker} {stretch left tried : List Int32} {opened : List (Int32 × Handle)}
  {id : Int32} {h : Handle} {e : StoreError} {w : Worker}

/-! ### One turn -/

namespace Crew

/-- A worker whose turn it is opens the next partition of its stretch. -/
theorem turn_of_ok (hattach : b.attach d (c.spec id) host = .ok h host') :
    turn b d c ⟨host, front ++ ⟨stretch, id :: left, opened, none⟩ :: back, tried⟩ front.length =
      ⟨host', front ++ ⟨stretch, left, opened ++ [(id, h)], none⟩ :: back, tried ++ [id]⟩ := by
  simp [turn, hattach]

/-- If that fails the worker is done, with the failure, and goes no further. -/
theorem turn_of_error (hattach : b.attach d (c.spec id) host = .error e host') :
    turn b d c ⟨host, front ++ ⟨stretch, id :: left, opened, none⟩ :: back, tried⟩ front.length =
      ⟨host', front ++ ⟨stretch, left, opened, some e⟩ :: back, tried ++ [id]⟩ := by
  simp [turn, hattach]

/-- A worker that is done does nothing with its turn. -/
theorem turn_of_isDone (hdone : w.isDone = true) :
    turn b d c ⟨host, front ++ w :: back, tried⟩ front.length =
      ⟨host, front ++ w :: back, tried⟩ := by
  have hnext : (front ++ w :: back)[front.length]? = some w := by simp
  rw [turn, hnext]
  split
  · -- A worker that could go on is not done.
    rename_i heq
    cases heq
    cases hdone
  · rfl

/-- Nothing happens in a turn, or one of the workers opens a partition, or fails to. -/
theorem turn_cases (b : Backend) (d : StoreFolder) (c : EngineSettings) (crew : Crew) (i : Nat) :
    crew.turn b d c i = crew ∨
      ∃ front stretch id left opened back,
        crew.workers = front ++ ⟨stretch, id :: left, opened, none⟩ :: back ∧
          ((∃ h host, b.attach d (c.spec id) crew.host = .ok h host ∧
              crew.turn b d c i = ⟨host, front ++ ⟨stretch, left, opened ++ [(id, h)], none⟩ :: back,
                crew.tried ++ [id]⟩) ∨
            ∃ e host, b.attach d (c.spec id) crew.host = .error e host ∧
              crew.turn b d c i = ⟨host, front ++ ⟨stretch, left, opened, some e⟩ :: back,
                crew.tried ++ [id]⟩) := by
  obtain ⟨host, workers, tried⟩ := crew
  by_cases hi : i < workers.length
  swap
  · exact .inl (by simp [turn, List.getElem?_eq_none (Nat.le_of_not_lt hi)])
  -- The worker whose turn it is stands between those before and those behind it.
  obtain ⟨front, w, back, rfl, rfl⟩ : ∃ front w back, workers = front ++ w :: back ∧
      front.length = i := by
    refine ⟨workers.take i, workers[i], workers.drop (i + 1), ?_, by simp [Nat.le_of_lt hi]⟩
    rw [← List.drop_eq_getElem_cons hi, List.take_append_drop]
  cases hdone : w.isDone with
  | true => exact .inl (turn_of_isDone hdone)
  | false =>
      obtain ⟨stretch, left, opened, failure?⟩ := w
      simp only [Worker.isDone, Bool.or_eq_false_iff, Option.isSome_eq_false_iff,
        Option.isNone_iff_eq_none] at hdone
      obtain ⟨hleft, rfl⟩ := hdone
      cases left with
      | nil => cases hleft
      | cons id left =>
          refine .inr ⟨front, stretch, id, left, opened, back, rfl, ?_⟩
          cases hattach : b.attach d (c.spec id) host with
          | ok h host' => exact .inl ⟨h, host', rfl, turn_of_ok hattach⟩
          | error e host' => exact .inr ⟨e, host', rfl, turn_of_error hattach⟩

/-! ### One worker after another -/

/-- A schedule can be cut anywhere. -/
theorem run_append (crew : Crew) (first second : List Nat) :
    crew.run b d c (first ++ second) = (crew.run b d c first).run b d c second :=
  List.foldl_append ..

/-- A worker that is done does nothing with any number of turns. -/
theorem run_of_isDone (hdone : w.isDone = true) (n : Nat) :
    run b d c ⟨host, front ++ w :: back, tried⟩ (List.replicate n front.length) =
      ⟨host, front ++ w :: back, tried⟩ := by
  induction n with
  | zero => rfl
  | succ n ih =>
      rw [List.replicate_succ, run, List.foldl_cons, turn_of_isDone hdone]
      exact ih

/-- A worker that has one turn after another opens what is left of its stretch. -/
theorem run_replicate (host : Host) (front back : List Worker) (stretch left tried : List Int32)
    (opened : List (Int32 × Handle)) : ∃ w tried',
      run b d c ⟨host, front ++ ⟨stretch, left, opened, none⟩ :: back, tried⟩
          (List.replicate left.length front.length) =
        ⟨Action.after (Restore.openStretch b d c left host), front ++ w :: back, tried'⟩ ∧
      w.isDone = true ∧
      w.result = (Action.answer (Restore.openStretch b d c left host)).map (opened ++ ·) := by
  -- One turn for each id that is left; after a failure the turns that remain do nothing.
  induction left generalizing host tried opened with
  | nil =>
      refine ⟨⟨stretch, [], opened, none⟩, tried, rfl, rfl, ?_⟩
      show _ = Except.ok (opened ++ [])
      rw [List.append_nil]
      rfl
  | cons id left ih =>
      rw [List.length_cons, List.replicate_succ, run, List.foldl_cons, Restore.openStretch]
      cases hattach : b.attach d (c.spec id) host with
      | error e host' =>
          rw [turn_of_error hattach, Action.bind_of_error hattach]
          exact ⟨_, _, run_of_isDone (by simp [Worker.isDone]) _, by simp [Worker.isDone], rfl⟩
      | ok h host' =>
          obtain ⟨w, tried', hrun, hdone, hresult⟩ := ih host' (tried ++ [id]) (opened ++ [(id, h)])
          rw [turn_of_ok hattach, Action.bind_of_ok hattach]
          refine ⟨w, tried', ?_, hdone, ?_⟩
          · rw [Action.after_bind fun _ _ => rfl]
            exact hrun
          · rw [hresult]
            cases hrest : Restore.openStretch b d c left host' with
            | error e host'' =>
                rw [Action.bind_of_error hrest]
                rfl
            | ok more host'' =>
                rw [Action.bind_of_ok hrest]
                simp [Action.answer, Except.map]

end Crew

namespace Restore

/-- Whatever becomes of a stretch, the next one is opened on the host that it left. -/
theorem after_openStretches_cons (stretch : List Int32) (rest : List (List Int32)) (host : Host) :
    Action.after (openStretches b d c (stretch :: rest) host) =
      Action.after (openStretches b d c rest (Action.after (openStretch b d c stretch host))) := by
  simp only [openStretches]
  cases openStretch b d c stretch host with
  | error e host' =>
      simp only [Action.after]
      cases openStretches b d c rest host' <;> rfl
  | ok opened host' =>
      simp only [Action.after]
      cases openStretches b d c rest host' <;> rfl

/-- The first stretch that fails decides. -/
theorem answer_openStretches_cons (stretch : List Int32) (rest : List (List Int32)) (host : Host) :
    Action.answer (openStretches b d c (stretch :: rest) host) = (do
      let opened ← Action.answer (openStretch b d c stretch host)
      let more ← Action.answer
        (openStretches b d c rest (Action.after (openStretch b d c stretch host)))
      pure (opened ++ more)) := by
  simp only [openStretches]
  cases openStretch b d c stretch host with
  | error e host' =>
      simp only [Action.after]
      cases openStretches b d c rest host' <;> rfl
  | ok opened host' =>
      simp only [Action.after]
      cases openStretches b d c rest host' <;> rfl

/-- A single stretch is opened like the stretches of one worker. -/
theorem openStretches_singleton (stretch : List Int32) (host : Host) :
    openStretches b d c [stretch] host = openStretch b d c stretch host := by
  simp only [openStretches]
  cases openStretch b d c stretch host with
  | error e host' => rfl
  | ok opened host' =>
      show EStateM.Result.ok (opened ++ []) host' = _
      rw [List.append_nil]

end Restore

namespace Crew

/-- Workers that come one after another, behind those of the front, do what
`Restore.openStretches` does. -/
theorem exists_schedule_behind (stretches : List (List Int32)) (host : Host)
    (front : List Worker) (tried : List Int32) : ∃ schedule workers tried',
      run b d c ⟨host, front ++ stretches.map Worker.start, tried⟩ schedule =
        ⟨Action.after (Restore.openStretches b d c stretches host), front ++ workers, tried'⟩ ∧
      workers.all Worker.isDone = true ∧
      (workers.mapM Worker.result).map List.flatten =
        Action.answer (Restore.openStretches b d c stretches host) := by
  -- Whoever had all its turns joins the front.
  induction stretches generalizing host front tried with
  | nil => exact ⟨[], [], tried, rfl, rfl, rfl⟩
  | cons stretch rest ih =>
      obtain ⟨w, tried₁, hrun, hdone, hresult⟩ :=
        @run_replicate b d c host front (rest.map Worker.start) stretch stretch tried []
      obtain ⟨schedule, workers, tried₂, hrest, hall, hjoined⟩ :=
        ih (Action.after (Restore.openStretch b d c stretch host)) (front ++ [w]) tried₁
      rw [List.append_assoc, List.append_assoc] at hrest
      refine ⟨List.replicate stretch.length front.length ++ schedule, w :: workers, tried₂, ?_,
        by simp [hdone, hall], ?_⟩
      · rw [List.map_cons, run_append, Worker.start, hrun, Restore.after_openStretches_cons]
        exact hrest
      · rw [Restore.answer_openStretches_cons, ← hjoined, List.mapM_cons, hresult]
        cases Action.answer (Restore.openStretch b d c stretch host) with
        | error e => rfl
        | ok opened => cases workers.mapM Worker.result <;> rfl

/-- Workers that come one after another are one way for a crew to work. -/
theorem exists_schedule_openStretches (b : Backend) (d : StoreFolder) (c : EngineSettings)
    (stretches : List (List Int32)) (host : Host) : ∃ schedule,
      ((start host stretches).run b d c schedule).isDone = true ∧
      ((start host stretches).run b d c schedule).answer =
        Restore.openStretches b d c stretches host := by
  obtain ⟨schedule, workers, tried, hrun, hdone, hjoined⟩ :=
    @exists_schedule_behind b d c stretches host [] []
  refine ⟨schedule, ?_, ?_⟩
  · rw [start, ← List.nil_append (List.map ..), hrun]
    exact hdone
  · rw [start, ← List.nil_append (List.map ..), hrun, answer, joined, List.nil_append, hjoined]
    cases Restore.openStretches b d c stretches host <;> rfl

end Crew

end PartitionStore

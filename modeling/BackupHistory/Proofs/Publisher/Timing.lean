import BackupHistory.Proofs.Publisher.Run
import BackupHistory.Publisher.Timeline

namespace BackupHistory

/-!
# Runs on time

Time never goes backwards in the steps of a publisher. Nothing more is asked of
a run on time: others may use the ledger between any two steps, also at the very
time at which the publisher wakes. What happens to a timeline while events are
ingested and time passes is such a run, in which the publisher takes its steps
as soon as it can.
-/

namespace Published

/-- The time at which a move is made, if it is a step of the publisher. -/
def Move.time? : Move → Option Nat
  | .proceed now => some now
  | _ => none

namespace Run

variable {first : Published}

/-- Whether no step of the publisher is made before an earlier one. -/
def OnTime (run : Run first) : Prop :=
  ∀ later < run.length,
    ∀ earlier < later,
      ∀ before ∈ (run.move earlier).time?,
        ∀ after ∈ (run.move later).time?, before ≤ after

/-- The time of the last step of the publisher before a moment. -/
def clock (run : Run first) : Nat → Nat
  | 0 => 0
  | moment + 1 => (run.move moment).time?.getD (run.clock moment)

/-- The clock shows the time of a step unless there has been none. -/
theorem clock_eq_or_time? (run : Run first) (moment : Nat) :
    run.clock moment = 0 ∨
      ∃ earlier < moment,
        (run.move earlier).time? = some (run.clock moment) := by
  induction moment with
  | zero => exact .inl rfl
  | succ moment inductionHypothesis =>
      unfold clock
      cases isTime : (run.move moment).time? with
      | some now => exact .inr ⟨moment, Nat.lt_succ_self moment, isTime⟩
      | none =>
          refine inductionHypothesis.imp_right ?_
          rintro ⟨earlier, isEarlier, time⟩
          exact ⟨earlier, Nat.lt_succ_of_lt isEarlier, time⟩

/-- On time, the clock is not ahead of the step that comes next. -/
theorem OnTime.clock_le
    {run : Run first}
    (onTime : run.OnTime)
    {moment : Nat}
    (within : moment < run.length)
    {now : Nat}
    (isMove : run.move moment = .proceed now) :
    run.clock moment ≤ now := by
  rcases run.clock_eq_or_time? moment with atStart | ⟨earlier, before, time⟩
  · rw [atStart]
    exact Nat.zero_le now
  · exact onTime moment within earlier before _ time now
      (congrArg Move.time? isMove)

end Run

/-- Moves at times that do not go backwards make a run on time. -/
theorem Run.onTime_ofMoves
    {first : Published}
    {moves : List Move}
    (possible : (first.moveAll? moves).isSome = true)
    (ordered : (moves.filterMap Move.time?).Pairwise (· ≤ ·)) :
    (Run.ofMoves first moves possible).OnTime := by
  rw [List.pairwise_filterMap, List.pairwise_iff_getElem] at ordered
  intro later within earlier before left isLeft right isRight
  have isLater : later < moves.length := within
  have isEarlier : earlier < moves.length := Nat.lt_trans before isLater
  refine ordered earlier later isEarlier isLater before left ?_ right ?_
  · simpa [Run.ofMoves, isEarlier] using isLeft
  · simpa [Run.ofMoves, isLater] using isRight

/-- The steps that a publisher can take at a time. -/
def settling (now : Nat) (state : Published) : List Move :=
  match _stepped : state.step? now with
  | none => []
  | some next => .proceed now :: settling now next
termination_by state.stepBound
decreasing_by exact stepBound_lt_of_step? _stepped

/-- A publisher settles by the steps that it can take. -/
theorem moveAll?_settling (now : Nat) (state : Published) :
    state.moveAll? (state.settling now) = some (state.settle now) := by
  fun_induction settling now state with
  | case1 state stuck =>
      unfold settle
      rw [stuck]
      rfl
  | case2 state next stepped inductionHypothesis =>
      unfold settle
      rw [stepped]
      have moved : state.move? (.proceed now) = some next := stepped
      exact (moveAll?_cons moved _).trans inductionHypothesis

/-- A publisher that has settled has to wait. -/
theorem step?_settle (now : Nat) (state : Published) :
    (state.settle now).step? now = none := by
  fun_induction settle now state with
  | case1 state stuck => exact stuck
  | case2 state next stepped inductionHypothesis =>
      exact inductionHypothesis

/-- A publisher that has settled is due to wake later. -/
theorem lt_of_due?_settle
    {now due : Nat}
    {state : Published}
    (isDue : (state.settle now).due? = some due) :
    now < due := by
  have stuck := step?_settle now state
  generalize state.settle now = settled at isDue stuck
  unfold due? at isDue
  split at isDue
  next sleeping =>
    cases isDue
    by_contra passed
    simp [step?, sleeping, Nat.not_lt.1 passed] at stuck
  next => cases isDue

theorem eq_proceed_of_mem_settling
    {now : Nat}
    {state : Published}
    {move : Move}
    (member : move ∈ state.settling now) :
    move = .proceed now := by
  fun_induction settling now state with
  | case1 state stuck => cases member
  | case2 state next stepped inductionHypothesis =>
      rcases List.mem_cons.1 member with rfl | later
      · rfl
      · exact inductionHypothesis later

/-- Moves of which the steps are made one after another between two times. -/
structure Spans (low high : Nat) (moves : List Move) : Prop where
  ordered : (moves.filterMap Move.time?).Pairwise (· ≤ ·)
  within : ∀ time ∈ moves.filterMap Move.time?, low ≤ time ∧ time ≤ high

section Spans

variable {low middle high : Nat} {first second : List Move}

theorem Spans.nil (low high : Nat) : Spans low high [] :=
  ⟨.nil, fun _ member => nomatch member⟩

theorem Spans.append
    (earlier : Spans low middle first)
    (later : Spans middle high second)
    (begins : low ≤ middle)
    (ends : middle ≤ high) :
    Spans low high (first ++ second) := by
  constructor
  · rw [List.filterMap_append, List.pairwise_append]
    refine ⟨earlier.ordered, later.ordered, ?_⟩
    intro before isBefore after isAfter
    exact Nat.le_trans (earlier.within before isBefore).2
      (later.within after isAfter).1
  · intro time member
    rw [List.filterMap_append, List.mem_append] at member
    rcases member with before | after
    · obtain ⟨above, below⟩ := earlier.within time before
      exact ⟨above, Nat.le_trans below ends⟩
    · obtain ⟨above, below⟩ := later.within time after
      exact ⟨Nat.le_trans begins above, below⟩

/-- The steps of a publisher that settles are all made at one time. -/
theorem spans_settling
    {now : Nat}
    (state : Published)
    (begins : low ≤ now)
    (ends : now ≤ high) :
    Spans low high (state.settling now) := by
  have sameTime : ∀ time ∈ (state.settling now).filterMap Move.time?,
      time = now := by
    intro time member
    obtain ⟨move, isMove, isTime⟩ := List.mem_filterMap.1 member
    rw [eq_proceed_of_mem_settling isMove] at isTime
    exact (Option.some.inj isTime).symm
  constructor
  · refine List.pairwise_of_forall_mem_list ?_
    intro before isBefore after isAfter
    rw [sameTime before isBefore, sameTime after isAfter]
  · intro time member
    rw [sameTime time member]
    exact ⟨begins, ends⟩

end Spans

end Published

namespace Timeline

open Published (Move Run Spans)

/-- What happens to a ledger in time: an event, or nothing for a while. -/
inductive Occurrence where
  | ingest (event : Event)
  | pass (millis : Nat)
  deriving Repr, DecidableEq

/-- The command that makes something happen. -/
def Occurrence.command : Occurrence → Command
  | .ingest event => .ingest event
  | .pass millis => .advance millis

/-- The steps of a publisher until a time, and at that time. -/
def waiting (target : Nat) (timeline : Timeline) : List Move :=
  let settled := timeline.state.settle timeline.now
  timeline.state.settling timeline.now ++
    match settled.due? with
    | some due => if due ≤ target then settled.settling due else []
    | none => []

/-- The moves that an occurrence brings with it. -/
def movesOf (timeline : Timeline) : Occurrence → List Move
  | .ingest event =>
      .ingest event ::
        (timeline.state.ingest event).1.settling timeline.now
  | .pass millis => timeline.waiting (timeline.now + millis)

/-- The timeline after an occurrence. -/
def after (timeline : Timeline) (occurrence : Occurrence) : Timeline :=
  (timeline.perform occurrence.command).1

/-- The moves that occurrences bring with them, one after another. -/
def moves (timeline : Timeline) : List Occurrence → List Move
  | [] => []
  | occurrence :: rest =>
      timeline.movesOf occurrence ++ (timeline.after occurrence).moves rest

section Moves

variable (timeline : Timeline)

theorem now_waitUntil (target : Nat) :
    (timeline.waitUntil target).now = target := by
  unfold waitUntil
  dsimp only
  split
  · split <;> rfl
  · rfl

/-- A publisher comes to a time by its steps until then. -/
theorem moveAll?_waiting (target : Nat) :
    timeline.state.moveAll? (timeline.waiting target) =
      some (timeline.waitUntil target).state := by
  simp only [waiting, waitUntil, Published.moveAll?_append,
    Published.moveAll?_settling, Option.bind_some]
  cases isDue : (timeline.state.settle timeline.now).due? with
  | none => rfl
  | some due =>
      by_cases inTime : due ≤ target
      · simp only [inTime, ↓reduceIte]
        exact Published.moveAll?_settling due _
      · simp only [inTime, ↓reduceIte]
        rfl

theorem spans_waiting
    {target : Nat}
    (later : timeline.now ≤ target) :
    Spans timeline.now target (timeline.waiting target) := by
  unfold waiting
  dsimp only
  have settles :=
    Published.spans_settling timeline.state (Nat.le_refl timeline.now)
      (Nat.le_refl timeline.now)
  refine settles.append ?_ (Nat.le_refl _) later
  split
  next due isDue =>
    split
    next inTime =>
      exact Published.spans_settling _
        (Nat.le_of_lt (Published.lt_of_due?_settle isDue)) inTime
    next => exact .nil ..
  next => exact .nil ..

theorem now_le_after (occurrence : Occurrence) :
    timeline.now ≤ (timeline.after occurrence).now := by
  cases occurrence with
  | ingest event => exact Nat.le_refl _
  | pass millis =>
      have now :
          (timeline.after (.pass millis)).now = timeline.now + millis :=
        timeline.now_waitUntil _
      rw [now]
      exact Nat.le_add_right ..

/-- An occurrence is nothing but the moves that it brings with it. -/
theorem moveAll?_movesOf (occurrence : Occurrence) :
    timeline.state.moveAll? (timeline.movesOf occurrence) =
      some (timeline.after occurrence).state := by
  cases occurrence with
  | ingest event =>
      have moved :
          timeline.state.move? (.ingest event) =
            some (timeline.state.ingest event).1 :=
        rfl
      exact (Published.moveAll?_cons moved _).trans
        (Published.moveAll?_settling timeline.now _)
  | pass millis => exact timeline.moveAll?_waiting _

theorem spans_movesOf (occurrence : Occurrence) :
    Spans timeline.now (timeline.after occurrence).now
      (timeline.movesOf occurrence) := by
  cases occurrence with
  | ingest event =>
      -- An event itself takes no time.
      have settles :=
        Published.spans_settling (timeline.state.ingest event).1
          (Nat.le_refl timeline.now) (Nat.le_refl timeline.now)
      exact ⟨settles.ordered, settles.within⟩
  | pass millis =>
      have now :
          (timeline.after (.pass millis)).now = timeline.now + millis :=
        timeline.now_waitUntil _
      rw [now]
      exact timeline.spans_waiting (Nat.le_add_right ..)

theorem dispose_not_mem_movesOf (occurrence : Occurrence) :
    .dispose ∉ timeline.movesOf occurrence := by
  have never {now : Nat} {state : Published}
      (member : Move.dispose ∈ state.settling now) : False :=
    nomatch Published.eq_proceed_of_mem_settling member
  cases occurrence with
  | ingest event =>
      intro member
      rcases List.mem_cons.1 member with isIngest | later
      · cases isIngest
      · exact never later
  | pass millis =>
      intro member
      rcases List.mem_append.1 member with before | after
      · exact never before
      · split at after
        · split at after
          · exact never after
          · cases after
        · cases after

end Moves

section Occurrences

variable (timeline : Timeline) (occurrences : List Occurrence)

/-- What happens to a timeline is nothing but the moves of its run. -/
theorem moveAll?_moves :
    timeline.state.moveAll? (timeline.moves occurrences) =
      some (timeline.run (occurrences.map Occurrence.command)).2.state := by
  induction occurrences generalizing timeline with
  | nil => rfl
  | cons occurrence rest inductionHypothesis =>
      unfold moves
      rw [Published.moveAll?_append, moveAll?_movesOf]
      exact inductionHypothesis (timeline.after occurrence)

theorem spans_moves :
    ∃ last,
      timeline.now ≤ last ∧
        Spans timeline.now last (timeline.moves occurrences) := by
  induction occurrences generalizing timeline with
  | nil => exact ⟨timeline.now, Nat.le_refl _, .nil ..⟩
  | cons occurrence rest inductionHypothesis =>
      obtain ⟨last, later, spans⟩ :=
        inductionHypothesis (timeline.after occurrence)
      have passes := timeline.now_le_after occurrence
      exact ⟨last, Nat.le_trans passes later,
        (timeline.spans_movesOf occurrence).append spans passes later⟩

theorem dispose_not_mem_moves :
    .dispose ∉ timeline.moves occurrences := by
  induction occurrences generalizing timeline with
  | nil => exact List.not_mem_nil
  | cons occurrence rest inductionHypothesis =>
      intro member
      rcases List.mem_append.1 member with before | after
      · exact timeline.dispose_not_mem_movesOf occurrence before
      · exact inductionHypothesis _ after

theorem moves_possible :
    (timeline.state.moveAll? (timeline.moves occurrences)).isSome = true := by
  rw [moveAll?_moves]
  rfl

/-- The run of a publisher to whose ledger events happen in time. -/
def toRun : Run timeline.state :=
  .ofMoves timeline.state (timeline.moves occurrences)
    (timeline.moves_possible occurrences)

theorem onTime_toRun : (timeline.toRun occurrences).OnTime := by
  obtain ⟨_, _, spans⟩ := timeline.spans_moves occurrences
  exact Published.Run.onTime_ofMoves _ spans.ordered

theorem undisposed_toRun :
    (timeline.toRun occurrences).Undisposed
      (timeline.toRun occurrences).length := by
  intro moment within disposes
  have inside : moment < (timeline.moves occurrences).length := within
  have isMove :
      (timeline.toRun occurrences).move moment =
        (timeline.moves occurrences)[moment] := by
    simp [toRun, Run.ofMoves, inside]
  rw [isMove] at disposes
  exact timeline.dispose_not_mem_moves occurrences
    (disposes ▸ List.getElem_mem inside)

theorem state_toRun :
    (timeline.toRun occurrences).state
        (timeline.toRun occurrences).length =
      (timeline.run (occurrences.map Occurrence.command)).2.state := by
  simp [toRun, Run.ofMoves, moveAll?_moves]

end Occurrences

end Timeline

end BackupHistory

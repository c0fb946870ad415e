import BackupHistory.Proofs.Ledger.Listening
import BackupHistory.Proofs.Publisher.Currency
import BackupHistory.Proofs.Publisher.Timing
import Mathlib.Algebra.BigOperators.Group.List.Basic

namespace BackupHistory

/-!
# Publishers that coalesce changes

Announcements are taken in two places, one before the sleep of a publisher and
the others after it, in the order in which they came. To tell them apart each is
known by the moment of its change, and `Published.Desk` keeps book of what
becomes of it: it waits, it is taken, and at last it belongs to one edition.
What a desk holds is all changes so far, one after another, so none is lost and
none is counted twice. The main statement is `coalesces_run`.
-/

namespace Publisher.Phase

/-- Whether changes are taken in a phase, before the flows that it is about. -/
def Owes (read : Nat) (taken : List Nat) : Publisher.Phase → Prop
  | .waiting
  | .ended => taken = []
  | .sleeping _
  | .draining
  | .reading => taken ≠ []
  | .building _
  | .publishing _ => taken ≠ [] ∧ ∀ change ∈ taken, change < read

/-- Whether no tree can be published before a time, as it is by the clock. -/
def Rests (earliest clock : Nat) : Publisher.Phase → Prop
  | .waiting
  | .ended => True
  | .sleeping due => earliest ≤ due
  | _ => earliest ≤ clock

end Publisher.Phase

namespace Published

/-- Whether a move changes what the ledger tracks. -/
def isChange (state : Published) : Move → Bool
  | .ingest event => (state.ledger.ingest event).change.isSome
  | _ => false

/-- Whether a move announces a change to the publisher. -/
def isAnnouncement (state : Published) : Move → Bool
  | .ingest event =>
      (state.ledger.ingest event).notified.contains
        state.publisher.subscription
  | _ => false

/-- A tree that a publisher has published after its first one. -/
structure Edition where
  /-- The moments of the changes whose announcements were taken for it. -/
  changes : List Nat
  /-- The moment at which its flows were read. -/
  read : Nat
  /-- The moment at which it was published. -/
  published : Nat
  /-- The time at which it was published. -/
  time : Nat
  deriving Repr, DecidableEq

/-- What has become of announced changes, each known by its moment. -/
structure Desk where
  /-- Those whose announcements have not been taken, the oldest first. -/
  inbox : List Nat
  /-- Those that were taken since the last tree was published. -/
  taken : List Nat
  editions : List Edition
  deriving Repr, DecidableEq

namespace Desk

def empty : Desk :=
  ⟨[], [], []⟩

def receive (moment : Nat) (desk : Desk) : Desk :=
  { desk with inbox := desk.inbox ++ [moment] }

/-- Take the oldest announcement, if there is one. -/
def take (desk : Desk) : Desk :=
  match desk.inbox with
  | [] => desk
  | change :: rest =>
      { desk with inbox := rest, taken := desk.taken ++ [change] }

/-- Make an edition of all that was taken. -/
def publish (read moment now : Nat) (desk : Desk) : Desk where
  inbox := desk.inbox
  taken := []
  editions := desk.editions ++ [⟨desk.taken, read, moment, now⟩]

/-- The desk after a move at a moment, if flows were last read before. -/
def after
    (desk : Desk)
    (state : Published)
    (move : Move)
    (read moment : Nat) :
    Desk :=
  match move, state.publisher.phase with
  | .ingest event, _ =>
      if state.isAnnouncement (.ingest event) then
        desk.receive moment
      else
        desk
  | .proceed _, .waiting => desk.take
  | .proceed _, .draining => desk.take
  | .proceed now, .publishing _ => desk.publish read moment now
  | _, _ => desk

/-- All changes that were ever announced, whatever has become of them. -/
def all (desk : Desk) : List Nat :=
  desk.editions.flatMap Edition.changes ++ desk.taken ++ desk.inbox

theorem all_take (desk : Desk) : desk.take.all = desk.all := by
  obtain ⟨inbox, taken, editions⟩ := desk
  cases inbox with
  | nil => rfl
  | cons change rest => simp [take, all]

@[simp] theorem editions_take (desk : Desk) :
    desk.take.editions = desk.editions := by
  unfold take
  split <;> rfl

theorem all_publish (read moment now : Nat) (desk : Desk) :
    (desk.publish read moment now).all = desk.all := by
  simp [publish, all]

variable {desk : Desk} {state : Published} {move : Move}
  {read moment : Nat}

/-- Nothing that was announced is lost or counted twice. -/
theorem all_after :
    (desk.after state move read moment).all =
      desk.all ++ if state.isAnnouncement move then [moment] else [] := by
  cases move with
  | ingest event =>
      by_cases announced : state.isAnnouncement (.ingest event) = true
      · simp [after, announced, receive, all]
      · simp [after, announced]
  | proceed now =>
      have silent : state.isAnnouncement (.proceed now) = false := rfl
      rw [silent]
      unfold after
      cases state.publisher.phase <;> simp [all_take, all_publish]
  | subscribe => exact (List.append_nil _).symm
  | unsubscribe id => exact (List.append_nil _).symm
  | dispose => exact (List.append_nil _).symm

/-- Only a publication makes an edition. -/
theorem editions_after_of_not_isPublication
    (silent : state.isPublication move = false) :
    (desk.after state move read moment).editions = desk.editions := by
  cases move with
  | ingest event =>
      simp only [after]
      split <;> rfl
  | proceed now =>
      unfold isPublication at silent
      unfold after
      cases phase : state.publisher.phase <;>
        simp_all
  | subscribe => rfl
  | unsubscribe id => rfl
  | dispose => rfl

/-- A publication makes an edition of all that was taken. -/
theorem exists_editions_after_of_isPublication
    (publishes : state.isPublication move = true) :
    ∃ tree now,
      state.publisher.phase = .publishing tree ∧
        move = .proceed now ∧
        desk.after state move read moment =
          desk.publish read moment now := by
  unfold isPublication at publishes
  split at publishes
  next now tree phase =>
    refine ⟨tree, now, phase, rfl, ?_⟩
    unfold after
    rw [phase]
  next => cases publishes

/--
How a desk fits a publisher that last read flows at one moment and whose clock
shows a time.
-/
structure Fits
    (desk : Desk)
    (state : Published)
    (debounce read clock : Nat) : Prop where
  debounces : state.publisher.debounce = debounce
  pending : desk.inbox.length = state.publisher.pending
  owes : state.publisher.phase.Owes read desk.taken
  rests :
    ∀ edition ∈ desk.editions,
      edition.time ≤ clock ∧
        state.publisher.phase.Rests (edition.time + debounce) clock
  spaced :
    desk.editions.Pairwise fun earlier later =>
      earlier.time + debounce ≤ later.time

section Fits

variable {next : Published} {debounce clock now : Nat}

theorem fits_start
    (arrangement : Arrangement)
    (debounce : Nat)
    (ledger : Ledger) :
    empty.Fits (start arrangement debounce ledger) debounce 0 0 where
  debounces := rfl
  pending := rfl
  owes := rfl
  rests _ member := nomatch member
  spaced := .nil

/-- Whoever uses the ledger leaves a publisher as it is but for its inbox. -/
theorem Fits.used
    (fits : desk.Fits state debounce read clock)
    (used : Desk)
    {pending : Nat}
    (taken : used.taken = desk.taken)
    (editions : used.editions = desk.editions)
    (ledger : Ledger)
    (inbox : used.inbox.length = pending) :
    used.Fits ⟨ledger, { state.publisher with pending := pending }⟩ debounce
      read clock where
  debounces := fits.debounces
  pending := inbox
  owes := taken ▸ fits.owes
  rests := editions ▸ fits.rests
  spaced := editions ▸ fits.spaced

theorem exists_take
    {pending : Nat}
    (announced : desk.inbox.length = pending + 1) :
    ∃ change,
      desk.take.inbox.length = pending ∧
        desk.take.taken = desk.taken ++ [change] := by
  obtain ⟨inbox, taken, editions⟩ := desk
  cases inbox with
  | nil => cases announced
  | cons change rest => exact ⟨change, Nat.succ.inj announced, rfl⟩

theorem take_of_pending_eq_zero (quiet : desk.inbox.length = 0) :
    desk.take = desk := by
  unfold take
  rw [List.length_eq_zero_iff.1 quiet]

/-- No step makes a publisher forget to sleep. -/
theorem rests_of_step?
    (stepped : state.step? now = some next)
    (inTime : clock ≤ now)
    {time : Nat}
    (past : time ≤ now)
    (rests :
      state.publisher.phase.Rests (time + state.publisher.debounce) clock) :
    next.publisher.phase.Rests (time + state.publisher.debounce) now := by
  cases advance_of_step? stepped with
  | take phase announced => exact Nat.add_le_add_right past _
  | stop phase quiet unsubscribed => trivial
  | wake phase passed =>
      rw [phase] at rests
      exact Nat.le_trans rests passed
  | drop phase announced =>
      simp only [phase] at rests ⊢
      exact Nat.le_trans rests inTime
  | drained phase quiet =>
      rw [phase] at rests
      exact Nat.le_trans rests inTime
  | read phase =>
      rw [phase] at rests
      exact Nat.le_trans rests inTime
  | build phase built =>
      rw [phase] at rests
      exact Nat.le_trans rests inTime
  | publish phase => trivial

/-- A step of a publisher leaves a desk that fits. -/
theorem Fits.proceed
    (fits : desk.Fits state debounce read clock)
    (past : ∀ change ∈ desk.taken, change < moment)
    (inTime : clock ≤ now)
    (stepped : state.step? now = some next) :
    (desk.after state (.proceed now) read moment).Fits next debounce
      (if state.isRead (.proceed now) then moment else read) now := by
  have owes := fits.owes
  have pending := fits.pending
  have rests :
      ∀ edition ∈ desk.editions,
        edition.time ≤ now ∧
          next.publisher.phase.Rests (edition.time + debounce) now := by
    intro edition member
    obtain ⟨isOld, rested⟩ := fits.rests edition member
    have isPast := Nat.le_trans isOld inTime
    rw [← fits.debounces] at rested ⊢
    exact ⟨isPast, rests_of_step? stepped inTime isPast rested⟩
  unfold isRead after
  cases advance_of_step? stepped with
  | take phase announced =>
      rw [announced] at pending
      obtain ⟨change, inbox, taken⟩ := exists_take pending
      rw [phase]
      refine ⟨fits.debounces, inbox, ?_, ?_, ?_⟩
      · simp [Publisher.Phase.Owes, taken]
      · simpa using rests
      · simpa using fits.spaced
  | stop phase quiet unsubscribed =>
      rw [quiet] at pending
      rw [phase] at owes
      rw [phase, take_of_pending_eq_zero pending]
      exact
        { fits with
          pending := pending.trans quiet.symm, owes := owes, rests := rests }
  | wake phase passed =>
      rw [phase] at owes ⊢
      exact { fits with owes := owes, rests := rests }
  | drop phase announced =>
      rw [announced] at pending
      obtain ⟨change, inbox, taken⟩ := exists_take pending
      rw [phase]
      refine ⟨fits.debounces, inbox, ?_, ?_, ?_⟩
      · simp [Publisher.Phase.Owes, taken, phase]
      · simpa using rests
      · simpa using fits.spaced
  | drained phase quiet =>
      rw [quiet] at pending
      rw [phase] at owes
      rw [phase, take_of_pending_eq_zero pending]
      exact
        { fits with
          pending := pending.trans quiet.symm, owes := owes, rests := rests }
  | read phase =>
      rw [phase] at owes ⊢
      exact { fits with owes := ⟨owes, past⟩, rests := rests }
  | build phase built =>
      rw [phase] at owes ⊢
      exact { fits with owes := owes, rests := rests }
  | publish phase =>
      have rested := fits.rests
      rw [phase] at rested ⊢
      refine ⟨fits.debounces, pending, rfl, ?_, ?_⟩
      · intro edition member
        rcases List.mem_append.1 member with before | latest
        · exact rests edition before
        · rw [List.mem_singleton.1 latest]
          exact ⟨Nat.le_refl now, trivial⟩
      · refine List.pairwise_append.2
          ⟨fits.spaced, List.pairwise_singleton .., ?_⟩
        intro earlier before latest isLatest
        rw [List.mem_singleton.1 isLatest]
        exact Nat.le_trans (rested earlier before).2 inTime

/-- Whatever happens at a moment leaves a desk that fits. -/
theorem Fits.moved
    (fits : desk.Fits state debounce read clock)
    (past : ∀ change ∈ desk.taken, change < moment)
    (inTime : ∀ now, move = .proceed now → clock ≤ now)
    (moved : state.move? move = some next) :
    (desk.after state move read moment).Fits next debounce
      (if state.isRead move then moment else read)
      (move.time?.getD clock) := by
  cases move with
  | proceed now => exact fits.proceed past (inTime now rfl) moved
  | ingest event =>
      cases moved
      by_cases announced : state.isAnnouncement (.ingest event) = true
      · have told :
            (state.ledger.ingest event).notified.contains
              state.publisher.subscription = true := announced
        simp only [after, announced, ↓reduceIte, ingest, told]
        have received :
            (desk.receive moment).inbox.length =
              state.publisher.pending + 1 := by
          simp [receive, fits.pending]
        exact fits.used (desk.receive moment) rfl rfl _ received
      · have untold :
            (state.ledger.ingest event).notified.contains
              state.publisher.subscription = false :=
          Bool.eq_false_iff.2 announced
        simp only [after, announced, ingest, untold]
        exact fits.used desk rfl rfl _ fits.pending
  | subscribe =>
      cases moved
      exact fits.used desk rfl rfl _ fits.pending
  | unsubscribe id =>
      simp only [move?] at moved
      split at moved
      · cases moved
      · cases moved
        exact fits.used desk rfl rfl _ fits.pending
  | dispose =>
      cases moved
      exact fits.used desk rfl rfl _ fits.pending

end Fits

end Desk

/-- A subscribed publisher is announced every change of its ledger. -/
theorem Tracks.isAnnouncement_eq
    {arrangement : Arrangement}
    {read shown : Ledger}
    {state : Published}
    (tracks : Tracks arrangement read shown state)
    (move : Move) :
    state.isAnnouncement move = state.isChange move := by
  cases move with
  | ingest event =>
      have subscribed :
          state.ledger.listeners.contains
            state.publisher.subscription = true :=
        tracks.subscribed
      simp only [isAnnouncement, isChange]
      rw [tracks.ledgerConsistent.indexed.notified_ingest]
      split
      next changes => rw [subscribed, changes]
      next silent => simp_all
  | proceed now => rfl
  | subscribe => rfl
  | unsubscribe id => rfl
  | dispose => rfl

namespace Run

variable {first : Published}

/-- What has become of announced changes by a moment. -/
def desk (run : Run first) : Nat → Desk
  | 0 => .empty
  | moment + 1 =>
      (run.desk moment).after (run.state moment) (run.move moment)
        (run.readBefore moment) moment

/-- The moments of changes of the ledger before a moment, in order. -/
def changes (run : Run first) (moment : Nat) : List Nat :=
  (List.range moment).filter fun earlier =>
    (run.state earlier).isChange (run.move earlier)

/-- The moments of publications before a moment, in order. -/
def publications (run : Run first) (moment : Nat) : List Nat :=
  (List.range moment).filter fun earlier =>
    (run.state earlier).isPublication (run.move earlier)

end Run

/-- An edition that is of the changes whose announcements were taken for it. -/
structure Edition.IsSound
    {first : Published}
    (edition : Edition)
    (run : Run first)
    (arrangement : Arrangement) : Prop where
  changes_ne_nil : edition.changes ≠ []
  /-- Its flows were read after all of its changes. -/
  lt_read : ∀ change ∈ edition.changes, change < edition.read
  read_lt : edition.read < edition.published
  isRead :
    (run.state edition.read).isRead (run.move edition.read) = true
  publishes : run.move edition.published = .proceed edition.time
  /-- Its tree is the one of the flows that were read. -/
  tree :
    (run.state (edition.published + 1)).publisher.published =
      arrangement.build (run.state edition.read).ledger.flows

namespace Run

/-- How the editions of a publisher stand to the changes of its ledger. -/
structure Coalesces
    {first : Published}
    (run : Run first)
    (arrangement : Arrangement)
    (debounce moment : Nat) : Prop where
  /-- There is one edition for each publication. -/
  published :
    (run.desk moment).editions.map Edition.published =
      run.publications moment
  /-- Editions have come at least the debounce apart. -/
  spaced :
    (run.desk moment).editions.Pairwise fun earlier later =>
      earlier.time + debounce ≤ later.time
  /-- Every change belongs to an edition, is taken or is announced. -/
  accounted :
    (run.desk moment).editions.flatMap Edition.changes ++
        (run.desk moment).taken ++ (run.desk moment).inbox =
      run.changes moment
  /-- No change belongs to two editions. -/
  once : ((run.desk moment).editions.flatMap Edition.changes).Nodup
  sound :
    ∀ edition ∈ (run.desk moment).editions,
      edition.IsSound run arrangement
  /-- There are never more publications than changes. -/
  length_le :
    (run.publications moment).length ≤ (run.changes moment).length

section Desk

variable {first : Published} (run : Run first)

theorem readBefore_lt {moment : Nat} (positive : 0 < moment) :
    run.readBefore moment < moment := by
  cases moment with
  | zero => cases positive
  | succ moment =>
      unfold readBefore
      split
      · exact Nat.lt_succ_self moment
      · exact Nat.lt_succ_of_le (run.readBefore_le moment)

theorem lt_of_mem_all_desk
    {moment change : Nat}
    (member : change ∈ (run.desk moment).all) :
    change < moment := by
  induction moment with
  | zero => cases member
  | succ moment inductionHypothesis =>
      unfold desk at member
      rw [Desk.all_after, List.mem_append] at member
      rcases member with before | latest
      · exact Nat.lt_succ_of_lt (inductionHypothesis before)
      · split at latest
        · rw [List.mem_singleton.1 latest]
          exact Nat.lt_succ_self moment
        · cases latest

theorem lt_of_mem_taken
    {moment change : Nat}
    (member : change ∈ (run.desk moment).taken) :
    change < moment :=
  run.lt_of_mem_all_desk
    (List.mem_append_left _ (List.mem_append_right _ member))

/-- There is one edition for each publication. -/
theorem map_published_editions (moment : Nat) :
    (run.desk moment).editions.map Edition.published =
      run.publications moment := by
  induction moment with
  | zero => rfl
  | succ moment inductionHypothesis =>
      unfold desk
      unfold publications at inductionHypothesis ⊢
      rw [List.range_succ, List.filter_append, ← inductionHypothesis]
      cases publishes :
          (run.state moment).isPublication (run.move moment) with
      | false =>
          rw [Desk.editions_after_of_not_isPublication publishes]
          simp [publishes]
      | true =>
          obtain ⟨_, _, _, _, published⟩ :=
            Desk.exists_editions_after_of_isPublication publishes
          rw [published]
          simp [publishes, Desk.publish]

end Desk

section Start

variable {arrangement : Arrangement}
  {debounce : Nat}
  {ledger : Ledger}
  (run : Run (start arrangement debounce ledger))

/-- On time, what becomes of changes fits the publisher at every moment. -/
theorem fits_desk
    (onTime : run.OnTime)
    {moment : Nat}
    (within : moment ≤ run.length) :
    (run.desk moment).Fits (run.state moment) debounce
      (run.readBefore moment) (run.clock moment) := by
  induction moment with
  | zero =>
      rw [run.starts]
      exact Desk.fits_start arrangement debounce ledger
  | succ moment inductionHypothesis =>
      have fits := inductionHypothesis (Nat.le_of_succ_le within)
      exact
        fits.moved (fun _ => run.lt_of_mem_taken)
          (fun _ => onTime.clock_le within) (run.moves moment within)

variable (consistent : ledger.Consistent)
include consistent

/-- The changes that were ever announced are all that there were. -/
theorem all_desk
    {moment : Nat}
    (within : moment ≤ run.length)
    (undisposed : run.Undisposed moment) :
    (run.desk moment).all = run.changes moment := by
  induction moment with
  | zero => rfl
  | succ moment inductionHypothesis =>
      have undisposedBefore : run.Undisposed moment :=
        fun earlier isEarlier =>
          undisposed earlier (Nat.lt_succ_of_lt isEarlier)
      have before :=
        inductionHypothesis (Nat.le_of_succ_le within) undisposedBefore
      have tracks :=
        run.tracks consistent (Nat.le_of_succ_le within) undisposedBefore
      unfold desk
      rw [Desk.all_after, before, tracks.isAnnouncement_eq]
      unfold changes
      rw [List.range_succ, List.filter_append, List.filter_singleton,
        Bool.cond_eq_ite]

/-- Every edition was made from flows that were read after its changes. -/
theorem isSound_of_mem_editions
    (onTime : run.OnTime)
    {moment : Nat}
    (within : moment ≤ run.length)
    (undisposed : run.Undisposed moment)
    {edition : Edition}
    (member : edition ∈ (run.desk moment).editions) :
    edition.IsSound run arrangement := by
  induction moment with
  | zero => cases member
  | succ moment inductionHypothesis =>
      have earlier :=
        inductionHypothesis (Nat.le_of_succ_le within)
          fun earlier isEarlier =>
            undisposed earlier (Nat.lt_succ_of_lt isEarlier)
      unfold desk at member
      cases publishes :
          (run.state moment).isPublication (run.move moment) with
      | false =>
          rw [Desk.editions_after_of_not_isPublication publishes] at member
          exact earlier member
      | true =>
          obtain ⟨tree, now, phase, isMove, published⟩ :=
            Desk.exists_editions_after_of_isPublication publishes
          rw [published] at member
          rcases List.mem_append.1 member with before | latest
          · exact earlier before
          · obtain rfl := List.mem_singleton.1 latest
            have owes :=
              (run.fits_desk onTime (Nat.le_of_succ_le within)).owes
            rw [phase] at owes
            obtain ⟨someTaken, read⟩ := owes
            have shown := (run.tracks consistent within undisposed).published
            unfold shownFrom at shown
            rw [if_pos publishes] at shown
            -- Something was taken, so the last reading is not the first one.
            obtain ⟨change, isTaken⟩ := List.exists_mem_of_ne_nil _ someTaken
            have isRead :=
              (run.isRead_readBefore moment).resolve_left
                (Nat.ne_zero_of_lt (read change isTaken))
            have positive := Nat.zero_lt_of_lt (run.lt_of_mem_taken isTaken)
            exact ⟨someTaken, read, run.readBefore_lt positive, isRead,
              isMove, shown⟩

/-- On time, a publisher coalesces the changes of its ledger. -/
theorem coalesces
    (onTime : run.OnTime)
    {moment : Nat}
    (within : moment ≤ run.length)
    (undisposed : run.Undisposed moment) :
    run.Coalesces arrangement debounce moment := by
  have published := run.map_published_editions moment
  have all := run.all_desk consistent within undisposed
  have sound {edition : Edition}
      (member : edition ∈ (run.desk moment).editions) :
      edition.IsSound run arrangement :=
    run.isSound_of_mem_editions consistent onTime within undisposed member
  have nodup : (run.changes moment).Nodup := List.nodup_range.filter _
  have sublist :
      ((run.desk moment).editions.flatMap Edition.changes).Sublist
        (run.changes moment) := by
    rw [← all, Desk.all, List.append_assoc]
    exact List.sublist_append_left ..
  constructor
  case published => exact published
  case spaced => exact (run.fits_desk onTime within).spaced
  case accounted => exact all
  case once => exact nodup.sublist sublist
  case sound => exact fun edition => sound
  case length_le =>
    refine Nat.le_trans ?_ sublist.length_le
    rw [← published, List.length_map, List.length_flatMap]
    refine Nat.le_trans (List.length_map _).ge
      (List.length_le_sum_of_one_le _ fun length member => ?_)
    obtain ⟨edition, isEdition, rfl⟩ := List.mem_map.1 member
    exact List.length_pos_iff.2 (sound isEdition).changes_ne_nil

end Start

end Run

/--
In any run on time of a publisher whose ledger has come from any actions and is
not disposed of, whoever else uses the ledger and when, publications are at
least the debounce apart, every change belongs to one edition at most, and every
edition is of some changes and shows flows that were read after all of them.
What happens to a timeline while events are ingested is such a run.
-/
theorem coalesces_run
    (accepts : Operation → Bool)
    (actions : List Ledger.Action)
    (arrangement : Arrangement)
    (debounce : Nat) :
    let ledger := (Ledger.new accepts).performAll actions
    (∀ run : Run (start arrangement debounce ledger),
      run.OnTime →
      ∀ moment ≤ run.length,
        run.Undisposed moment →
        run.Coalesces arrangement debounce moment) ∧
    (∀ occurrences,
      let timeline := Timeline.start arrangement debounce ledger
      let run := timeline.toRun occurrences
      run.state run.length =
          (timeline.run (occurrences.map Timeline.Occurrence.command)).2.state ∧
        ∀ moment ≤ run.length, run.Coalesces arrangement debounce moment) := by
  intro ledger
  obtain ⟨consistent, _⟩ :=
    (Ledger.consistent_new accepts).performAll actions
  have coalesces (run : Run (start arrangement debounce ledger))
      (onTime : run.OnTime)
      (moment : Nat)
      (within : moment ≤ run.length)
      (undisposed : run.Undisposed moment) :
      run.Coalesces arrangement debounce moment :=
    run.coalesces consistent onTime within undisposed
  refine ⟨coalesces, ?_⟩
  intro occurrences timeline run
  refine ⟨timeline.state_toRun occurrences, ?_⟩
  intro moment within
  refine coalesces run (timeline.onTime_toRun occurrences) moment within ?_
  intro earlier isEarlier
  exact timeline.undisposed_toRun occurrences earlier
    (Nat.lt_of_lt_of_le isEarlier within)

/--
The change between the last announcement that is taken and the reading is shown
by the first edition and belongs to the second.
-/
theorem coalesces_burst :
    burst.OnTime ∧
      burst.Undisposed burst.length ∧
      burst.Coalesces ⟨.repository, 0, .none⟩ 10 burst.length ∧
      (burst.desk burst.length).editions =
        [⟨[0, 2], 7, 11, 10⟩, ⟨[6, 9], 17, 19, 21⟩] := by
  have onTime : burst.OnTime :=
    Run.onTime_ofMoves _ (by decide)
  have undisposed : burst.Undisposed burst.length := by decide +kernel
  obtain ⟨coalesces, _⟩ :=
    coalesces_run (fun _ => true) [] ⟨.repository, 0, .none⟩ 10
  exact ⟨onTime, undisposed,
    coalesces burst onTime _ (Nat.le_refl _) undisposed,
    by decide +kernel⟩

end Published

end BackupHistory

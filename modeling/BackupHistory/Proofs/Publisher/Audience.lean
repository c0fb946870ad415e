import BackupHistory.Proofs.Ledger.Listening
import BackupHistory.Proofs.Publisher.Run

namespace BackupHistory

/-!
# Publishers that share a ledger

Many publishers may listen to one ledger, beside listeners that are none. The
subscription of a publisher is removed when it is dropped, or after that if the
ledger is in use then, and again at the end of its task; disposing of the ledger
removes all of them. `Audience` keeps book of whose subscriptions last, and
`Tenant.Follows` is all that one deed of a publisher can do.
-/

/-- What has become of the subscription of a publisher. -/
inductive Tenure where
  /-- The publisher has not been dropped. -/
  | kept
  /-- It was dropped while the ledger was in use, and the removal is to come. -/
  | pending
  /-- It was dropped like that, and nothing is left to remove it. -/
  | abandoned
  | released
  deriving Repr, DecidableEq

/-- What becomes of the subscription of a publisher that is dropped. -/
def Tenure.ofDrop : Publisher.Drop → Tenure
  | .free => .released
  | .locked => .pending
  | .abandoned => .abandoned

/-- A publisher among those that share a ledger. -/
structure Tenant where
  publisher : Publisher
  tenure : Tenure
  /-- Whether its task can take steps. -/
  isRunning : Bool
  /-- Whether the ledger was disposed of after the publisher was started. -/
  isOutlived : Bool

/-- What a publisher does, or what is done for it. -/
inductive Deed where
  /-- Its task takes the next step at some time. -/
  | proceed (now : Nat)
  /-- Its task finds that nobody is left to publish a tree for. -/
  | breakOff
  /-- Its task removes the subscription as the last thing it does. -/
  | leave
  /-- It is dropped, and whether the ledger is in use then is up to others. -/
  | drop (how : Publisher.Drop)
  /-- Its task is stopped, which may be some time after the drop. -/
  | abort
  /-- The removal that a drop has left for later is made. -/
  | cleanUp
  deriving Repr, DecidableEq

namespace Tenant

def id (tenant : Tenant) : SubscriptionId :=
  tenant.publisher.subscription

/-- A publisher with the ledger that it shares. -/
def beside (tenant : Tenant) (ledger : Ledger) : Published :=
  ⟨ledger, tenant.publisher⟩

/-- Whether a publisher is to listen: neither dropped nor outlived. -/
def isCurrent (tenant : Tenant) : Bool :=
  decide (tenant.tenure = .kept) && !tenant.isOutlived

/-- The publisher after an event, which may be announced to it. -/
def hear (ledger : Ledger) (event : Event) (tenant : Tenant) : Tenant :=
  { tenant with
    publisher := ((tenant.beside ledger).ingest event).1.publisher }

def outlive (tenant : Tenant) : Tenant :=
  { tenant with isOutlived := true }

/--
What a deed leads to, if it can be done.

The tree of a publisher that is not dropped has somebody to look at it, so only
the task of a dropped one can break off.
-/
def act?
    (ledger : Ledger)
    (tenant : Tenant) :
    Deed → Option (Ledger × Tenant)
  | .proceed now =>
      if tenant.isRunning then
        ((tenant.beside ledger).step? now).map fun next =>
          (next.ledger, { tenant with publisher := next.publisher })
      else
        none
  | .breakOff =>
      match tenant.publisher.phase with
      | .publishing _ =>
          if tenant.isRunning ∧ tenant.tenure ≠ .kept then
            some (ledger,
              { tenant with
                publisher := ((tenant.beside ledger).enter .ended).publisher })
          else
            none
      | _ => none
  | .leave =>
      if tenant.isRunning ∧ (tenant.beside ledger).hasEnded then
        some ((tenant.beside ledger).release,
          { tenant with isRunning := false })
      else
        none
  | .drop how =>
      if tenant.tenure = .kept then
        some (((tenant.beside ledger).drop how).1,
          { tenant with tenure := .ofDrop how })
      else
        none
  | .abort =>
      if tenant.tenure = .kept then
        none
      else
        some (ledger, { tenant with isRunning := false })
  | .cleanUp =>
      if tenant.tenure = .pending then
        some (((tenant.beside ledger).drop .locked).2,
          { tenant with tenure := .released })
      else
        none

end Tenant

/-- A ledger with all who listen to it. -/
structure Audience where
  ledger : Ledger
  /-- The subscriptions that last of those who are not publishers. -/
  others : List SubscriptionId
  /-- All publishers that were ever started, dropped or not. -/
  tenants : List Tenant

namespace Audience

def new (accepts : Operation → Bool) : Audience :=
  ⟨.new accepts, [], []⟩

/-- The ids of all publishers' subscriptions. -/
def ids (audience : Audience) : List SubscriptionId :=
  audience.tenants.map Tenant.id

/-- The subscriptions of publishers that were started after the ledger was last
disposed of and were not dropped. -/
def current (audience : Audience) : List SubscriptionId :=
  (audience.tenants.filter Tenant.isCurrent).map Tenant.id

/-- Whether no removal of a subscription is left for later. -/
def IsSettled (audience : Audience) : Prop :=
  ∀ tenant ∈ audience.tenants, tenant.tenure ≠ .pending

instance (audience : Audience) : Decidable audience.IsSettled :=
  inferInstanceAs (Decidable (∀ tenant ∈ audience.tenants, _))

/-- What happens to a ledger or to one of those who listen to it. -/
inductive Move where
  | ingest (event : Event)
  /-- Somebody subscribes who is not a publisher. -/
  | subscribe
  | unsubscribe (id : SubscriptionId)
  | dispose
  | start (arrangement : Arrangement) (debounce : Nat)
  /-- A deed of a publisher, or one that is done for it. -/
  | act (index : Nat) (deed : Deed)

/-- Whether a publisher is dropped so that its subscription stays behind. -/
def Move.abandons : Move → Bool
  | .act _ (.drop .abandoned) => true
  | _ => false

/-- Ingest an event, which is announced to all who listen. -/
def ingest (audience : Audience) (event : Event) : Audience where
  ledger := (audience.ledger.ingest event).ledger
  others := audience.others
  tenants := audience.tenants.map (.hear audience.ledger event)

def subscribe (audience : Audience) : Audience where
  ledger := audience.ledger.subscribe.1
  others := audience.others ++ [audience.ledger.subscribe.2]
  tenants := audience.tenants

def unsubscribe (audience : Audience) (id : SubscriptionId) : Audience where
  ledger := audience.ledger.unsubscribe id
  others := audience.others.filter (· != id)
  tenants := audience.tenants

def dispose (audience : Audience) : Audience where
  ledger := audience.ledger.dispose
  others := []
  tenants := audience.tenants.map .outlive

/-- Start a publisher. -/
def start
    (arrangement : Arrangement)
    (debounce : Nat)
    (audience : Audience) :
    Audience :=
  let started := Published.start arrangement debounce audience.ledger
  { ledger := started.ledger
    others := audience.others
    tenants :=
      audience.tenants ++ [⟨started.publisher, .kept, true, false⟩] }

/-- The audience after a deed of a publisher. -/
def act? (audience : Audience) (index : Nat) (deed : Deed) :
    Option Audience := do
  let tenant ← audience.tenants[index]?
  let (ledger, next) ← tenant.act? audience.ledger deed
  some {
    ledger := ledger
    others := audience.others
    tenants := audience.tenants.set index next }

/--
What a move leads to, if it can be made.

The subscription of a publisher is known to nobody else who could end it.
-/
def move? (audience : Audience) : Move → Option Audience
  | .ingest event => some (audience.ingest event)
  | .subscribe => some audience.subscribe
  | .unsubscribe id =>
      if id ∈ audience.ids then
        none
      else
        some (audience.unsubscribe id)
  | .dispose => some audience.dispose
  | .start arrangement debounce =>
      some (audience.start arrangement debounce)
  | .act index deed => audience.act? index deed

/-- The audience after moves, one after another, if all can be made. -/
def moveAll? (audience : Audience) (moves : List Move) : Option Audience :=
  moves.foldlM move? audience

section Moves

variable {audience next : Audience}

/-- A deed in an audience is one of somebody in it. -/
theorem exists_of_act?
    {index : Nat}
    {deed : Deed}
    (moved : audience.act? index deed = some next) :
    ∃ tenant successor after,
      audience.tenants[index]? = some tenant ∧
        tenant.act? audience.ledger deed = some (after, successor) ∧
        next =
          { ledger := after
            others := audience.others
            tenants := audience.tenants.set index successor } := by
  obtain ⟨tenant, isTenant, rest⟩ := Option.bind_eq_some_iff.1 moved
  obtain ⟨⟨after, successor⟩, acted, same⟩ :=
    Option.bind_eq_some_iff.1 rest
  exact ⟨tenant, successor, after, isTenant, acted,
    (Option.some.inj same).symm⟩

/-- What every move keeps holds after all of them. -/
theorem holds_of_moveAll?
    {Holds : Audience → Prop}
    {moves : List Move}
    (keeps :
      ∀ move ∈ moves,
        ∀ before after,
          Holds before →
          before.move? move = some after →
          Holds after)
    (holds : Holds audience)
    (moved : audience.moveAll? moves = some next) :
    Holds next := by
  induction moves generalizing audience with
  | nil =>
      cases moved
      exact holds
  | cons move rest inductionHypothesis =>
      obtain ⟨between, first, later⟩ := Option.bind_eq_some_iff.1 moved
      obtain ⟨keepsFirst, keepsRest⟩ := List.forall_mem_cons.1 keeps
      exact inductionHypothesis keepsRest
        (keepsFirst audience between holds first) later

end Moves

end Audience

namespace Tenant

/-- What a deed of a publisher keeps and what it can change. -/
structure Follows
    (ledger : Ledger)
    (tenant : Tenant)
    (deed : Deed)
    (after : Ledger)
    (next : Tenant) : Prop where
  id : next.id = tenant.id
  isOutlived : next.isOutlived = tenant.isOutlived
  kept : next.tenure = .kept → tenant.tenure = .kept
  abandoned :
    next.tenure = .abandoned →
    tenant.tenure = .abandoned ∨ deed = .drop .abandoned
  /-- Unless it is dropped, its task only ends without a subscription. -/
  ended :
    next.tenure = .kept →
    next.publisher.phase = .ended →
    tenant.publisher.phase = .ended ∨ tenant.id ∉ ledger.listeners
  /-- The ledger stays as it is, or loses the subscription of the publisher. -/
  after_eq :
    (after = ledger ∧
        (next.tenure = .released → tenant.tenure = .released)) ∨
      (after = ledger.unsubscribe tenant.id ∧
        (next.tenure = .kept → tenant.publisher.phase = .ended))

section Follows

variable {ledger after : Ledger} {tenant next : Tenant} {deed : Deed}

/-- A step of its task leaves the ledger of a publisher as it is. -/
theorem follows_of_step?
    {now : Nat}
    {published : Published}
    (stepped : (tenant.beside ledger).step? now = some published) :
    Follows ledger tenant (.proceed now) published.ledger
      { tenant with publisher := published.publisher } := by
  have advance := Published.advance_of_step? stepped
  have same : published.publisher.subscription = tenant.id := by
    cases advance <;> rfl
  refine ⟨same, rfl, fun kept => kept, .inl, ?_,
    .inl ⟨advance.ledger_eq, fun released => released⟩⟩
  intro _ ended
  cases advance with
  | stop phase quiet unsubscribed =>
      refine .inr fun listens => ?_
      have subscribed : ledger.isSubscribed tenant.id = true :=
        List.contains_iff_mem.2 listens
      exact Bool.false_ne_true (unsubscribed.symm.trans subscribed)
  | drop phase announced =>
      rw [phase] at ended
      cases ended
  | take phase announced => cases ended
  | wake phase passed => cases ended
  | drained phase quiet => cases ended
  | read phase => cases ended
  | build phase built => cases ended
  | publish phase => cases ended

theorem phase_eq_of_hasEnded
    (ended : (tenant.beside ledger).hasEnded = true) :
    tenant.publisher.phase = .ended := by
  unfold Published.hasEnded at ended
  split at ended
  next phase => exact phase
  next => cases ended

/-- Whatever is done by a publisher or for it does what is said of deeds. -/
theorem follows_of_act?
    (acted : tenant.act? ledger deed = some (after, next)) :
    Follows ledger tenant deed after next := by
  cases deed with
  | proceed now =>
      simp only [act?, Option.ite_none_right_eq_some,
        Option.map_eq_some_iff] at acted
      obtain ⟨_, published, stepped, same⟩ := acted
      cases same
      exact follows_of_step? stepped
  | breakOff =>
      simp only [act?] at acted
      split at acted
      next tree phase =>
        obtain ⟨⟨_, dropped⟩, same⟩ :=
          Option.ite_none_right_eq_some.1 acted
        cases same
        exact ⟨rfl, rfl, fun kept => kept, .inl,
          fun kept => absurd kept dropped,
          .inl ⟨rfl, fun released => released⟩⟩
      next => cases acted
  | leave =>
      obtain ⟨⟨_, ended⟩, same⟩ := Option.ite_none_right_eq_some.1 acted
      cases same
      have phase := phase_eq_of_hasEnded ended
      exact ⟨rfl, rfl, fun kept => kept, .inl, fun _ _ => .inl phase,
        .inr ⟨rfl, fun _ => phase⟩⟩
  | drop how =>
      obtain ⟨kept, same⟩ := Option.ite_none_right_eq_some.1 acted
      cases same
      cases how with
      | free =>
          exact ⟨rfl, rfl, fun _ => kept, nofun, nofun, .inr ⟨rfl, nofun⟩⟩
      | locked =>
          exact ⟨rfl, rfl, fun _ => kept, nofun, nofun, .inl ⟨rfl, nofun⟩⟩
      | abandoned =>
          exact ⟨rfl, rfl, fun _ => kept, fun _ => .inr rfl, nofun,
            .inl ⟨rfl, nofun⟩⟩
  | abort =>
      obtain ⟨dropped, same⟩ := Option.ite_none_left_eq_some.1 acted
      cases same
      exact ⟨rfl, rfl, fun kept => kept, .inl,
        fun kept => absurd kept dropped,
        .inl ⟨rfl, fun released => released⟩⟩
  | cleanUp =>
      obtain ⟨_, same⟩ := Option.ite_none_right_eq_some.1 acted
      cases same
      exact ⟨rfl, rfl, nofun, nofun, nofun, .inr ⟨rfl, nofun⟩⟩

/-- A deed of a publisher concerns no listener but its own. -/
theorem Follows.mem_listeners_iff
    (follows : Follows ledger tenant deed after next)
    {id : SubscriptionId}
    (other : id ≠ tenant.id) :
    id ∈ after.listeners ↔ id ∈ ledger.listeners := by
  obtain ⟨rfl, _⟩ | ⟨rfl, _⟩ := follows.after_eq
  · rfl
  · rw [Ledger.mem_listeners_unsubscribe, and_iff_left other]

theorem Follows.subscriptionCount_eq
    (follows : Follows ledger tenant deed after next) :
    after.subscriptionCount = ledger.subscriptionCount := by
  obtain ⟨rfl, _⟩ | ⟨rfl, _⟩ := follows.after_eq
  · rfl
  · rfl

end Follows

end Tenant

end BackupHistory

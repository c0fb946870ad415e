import BackupHistory.Proofs.Publisher.Audience
import Mathlib.Data.List.Perm.Subperm

namespace BackupHistory

/-!
# Listeners of a shared ledger

Whoever listens to a ledger is in the book of its audience and the other way
round, in whatever order publishers are started and dropped, their tasks end,
removals are made up for and the ledger is disposed of. What carries it is that
ids are never handed out again, so a removal that comes too late or a second
time hits nobody. The main statement is `keeps_moveAll`.
-/

namespace Tenant

/-- How a publisher stands to the ledger that it shares. -/
structure Fits (ledger : Ledger) (tenant : Tenant) : Prop where
  numbered : tenant.id.number ≤ ledger.subscriptionCount
  present : tenant.isCurrent = true → tenant.id ∈ ledger.listeners
  absent :
    tenant.isOutlived = true ∨ tenant.tenure = .released →
    tenant.id ∉ ledger.listeners
  goesOn : tenant.isCurrent = true → tenant.publisher.phase ≠ .ended

section Fits

variable {ledger after : Ledger} {tenant next : Tenant} {deed : Deed}

theorem isCurrent_iff :
    tenant.isCurrent = true ↔
      tenant.tenure = .kept ∧ tenant.isOutlived = false := by
  simp [isCurrent]

/-- What leaves a subscription as it was is of no concern to its publisher. -/
theorem Fits.of_mem_iff
    (fits : tenant.Fits ledger)
    (same : tenant.id ∈ after.listeners ↔ tenant.id ∈ ledger.listeners)
    (counted : ledger.subscriptionCount ≤ after.subscriptionCount) :
    tenant.Fits after where
  numbered := Nat.le_trans fits.numbered counted
  present current := same.2 (fits.present current)
  absent gone listens := fits.absent gone (same.1 listens)
  goesOn := fits.goesOn

/-- A publisher goes on to fit after a deed of its own. -/
theorem Fits.follows
    (fits : tenant.Fits ledger)
    (follows : Follows ledger tenant deed after next) :
    next.Fits after := by
  have current (isCurrent : next.isCurrent = true) :
      next.tenure = .kept ∧ tenant.isCurrent = true := by
    obtain ⟨kept, recent⟩ := isCurrent_iff.1 isCurrent
    exact ⟨kept, isCurrent_iff.2
      ⟨follows.kept kept, follows.isOutlived.symm.trans recent⟩⟩
  have goesOn (isCurrent : next.isCurrent = true) :
      next.publisher.phase ≠ .ended := by
    intro ended
    obtain ⟨kept, was⟩ := current isCurrent
    rcases follows.ended kept ended with before | unsubscribed
    · exact fits.goesOn was before
    · exact unsubscribed (fits.present was)
  obtain ⟨rfl, released⟩ | ⟨rfl, leaves⟩ := follows.after_eq
  · constructor
    · exact follows.id ▸ fits.numbered
    · exact fun isCurrent => follows.id ▸ fits.present (current isCurrent).2
    · intro gone
      rw [follows.id]
      rw [follows.isOutlived] at gone
      exact fits.absent (gone.imp_right released)
    · exact goesOn
  · constructor
    · exact follows.id ▸ fits.numbered
    · intro isCurrent
      obtain ⟨kept, was⟩ := current isCurrent
      exact absurd (leaves kept) (fits.goesOn was)
    · intro _ listens
      exact (Ledger.mem_listeners_unsubscribe.1 listens).2 follows.id
    · exact goesOn

/-- An outlived publisher has no subscription that it could remove. -/
theorem Fits.eq_of_isOutlived
    (fits : tenant.Fits ledger)
    (isOutlived : tenant.isOutlived = true)
    (follows : Follows ledger tenant deed after next) :
    after = ledger := by
  obtain ⟨same, _⟩ | ⟨rfl, _⟩ := follows.after_eq
  · exact same
  · exact Ledger.unsubscribe_eq_of_not_mem (fits.absent (.inl isOutlived))

end Fits

end Tenant

namespace Audience

/-- What those who share a new ledger can rely on after moves. -/
structure Keeps (moves : List Move) (audience : Audience) : Prop where
  /-- With nothing left for later, just those listen who are to listen. -/
  perm :
    (∀ move ∈ moves, move.abandons = false) →
    audience.IsSettled →
    audience.ledger.listeners.Perm (audience.others ++ audience.current)
  /-- Nobody's listener is stolen, whatever is left for later. -/
  subperm :
    (audience.others ++ audience.current).Subperm audience.ledger.listeners
  /-- A publisher that the ledger was disposed of before leaves it alone. -/
  outlived :
    ∀ index tenant deed next,
      audience.tenants[index]? = some tenant →
      tenant.isOutlived = true →
      audience.move? (.act index deed) = some next →
      next.ledger = audience.ledger

/-- An audience whose book agrees with the ledger. -/
structure Orderly (audience : Audience) : Prop where
  consistent : audience.ledger.Consistent
  enrolled : audience.ledger.Enrolled
  distinct : audience.ids.Nodup
  others_nodup : audience.others.Nodup
  mem_others_iff :
    ∀ id,
      id ∈ audience.others ↔
        id ∈ audience.ledger.listeners ∧ id ∉ audience.ids
  fits : ∀ tenant ∈ audience.tenants, tenant.Fits audience.ledger

section Orderly

variable {audience next : Audience}

theorem orderly_new (accepts : Operation → Bool) : (new accepts).Orderly where
  consistent := Ledger.consistent_new accepts
  enrolled := Ledger.enrolled_new accepts
  distinct := .nil
  others_nodup := .nil
  mem_others_iff _ := by simp [new, Ledger.new]
  fits _ member := nomatch member

/-- The next id that the ledger hands out is nobody's. -/
theorem Orderly.not_mem_ids
    (orderly : audience.Orderly) :
    audience.ledger.subscribe.2 ∉ audience.ids := by
  intro member
  obtain ⟨tenant, isTenant, same⟩ := List.mem_map.1 member
  have numbered := (orderly.fits tenant isTenant).numbered
  rw [same] at numbered
  exact Nat.not_succ_le_self _ numbered

theorem Orderly.not_mem_listeners
    (orderly : audience.Orderly) :
    audience.ledger.subscribe.2 ∉ audience.ledger.listeners :=
  fun member => Nat.not_succ_le_self _ (orderly.enrolled.bounded _ member)

theorem ids_ingest (event : Event) :
    (audience.ingest event).ids = audience.ids :=
  List.map_map ..

theorem ids_dispose : audience.dispose.ids = audience.ids :=
  List.map_map ..

theorem ids_start (arrangement : Arrangement) (debounce : Nat) :
    (audience.start arrangement debounce).ids =
      audience.ids ++ [audience.ledger.subscribe.2] :=
  List.map_append

theorem Orderly.ingest
    (orderly : audience.Orderly)
    (event : Event) :
    (audience.ingest event).Orderly := by
  have indexed := orderly.consistent.indexed
  have listeners :
      (audience.ingest event).ledger.listeners =
        audience.ledger.listeners :=
    indexed.listeners_ingest event
  constructor
  case consistent => exact orderly.consistent.ingest event
  case enrolled => exact orderly.enrolled.perform indexed (.ingest event)
  case distinct =>
    rw [ids_ingest]
    exact orderly.distinct
  case others_nodup => exact orderly.others_nodup
  case mem_others_iff =>
    rw [ids_ingest, listeners]
    exact orderly.mem_others_iff
  case fits =>
    intro tenant member
    obtain ⟨before, isTenant, rfl⟩ := List.mem_map.1 member
    have fits := orderly.fits before isTenant
    have heard : (before.hear audience.ledger event).Fits audience.ledger :=
      ⟨fits.numbered, fits.present, fits.absent, fits.goesOn⟩
    refine heard.of_mem_iff (by rw [listeners]) ?_
    exact (indexed.subscriptionCount_ingest event).ge

/-- A new subscription is of no concern to the publishers there are. -/
theorem Orderly.fits_subscribe
    (orderly : audience.Orderly)
    {tenant : Tenant}
    (isTenant : tenant ∈ audience.tenants) :
    tenant.Fits audience.ledger.subscribe.1 := by
  refine (orderly.fits tenant isTenant).of_mem_iff ?_ (Nat.le_succ _)
  have old : tenant.id ≠ audience.ledger.subscribe.2 :=
    fun same => orderly.not_mem_ids (same ▸ List.mem_map_of_mem isTenant)
  simp only [Ledger.subscribe, List.mem_append, List.mem_singleton,
    or_iff_left_iff_imp]
  exact fun same => absurd same old

theorem Orderly.subscribe
    (orderly : audience.Orderly) :
    audience.subscribe.Orderly := by
  have indexed := orderly.consistent.indexed
  constructor
  case consistent => exact orderly.consistent.perform .subscribe
  case enrolled => exact orderly.enrolled.perform indexed .subscribe
  case distinct => exact orderly.distinct
  case others_nodup =>
    have fresh : audience.ledger.subscribe.2 ∉ audience.others :=
      fun member => orderly.not_mem_listeners
        ((orderly.mem_others_iff _).1 member).1
    simpa [Audience.subscribe] using orderly.others_nodup.concat fresh
  case mem_others_iff =>
    intro id
    have own : id = audience.ledger.subscribe.2 → id ∉ audience.ids :=
      fun same => same ▸ orderly.not_mem_ids
    simp only [Audience.subscribe, Ledger.listeners_subscribe, List.mem_append,
      List.mem_singleton, orderly.mem_others_iff, Audience.ids] at own ⊢
    tauto
  case fits => exact fun tenant => orderly.fits_subscribe

theorem Orderly.unsubscribe
    (orderly : audience.Orderly)
    {id : SubscriptionId}
    (foreign : id ∉ audience.ids) :
    (audience.unsubscribe id).Orderly := by
  have indexed := orderly.consistent.indexed
  constructor
  case consistent => exact orderly.consistent.perform (.unsubscribe id)
  case enrolled => exact orderly.enrolled.perform indexed (.unsubscribe id)
  case distinct => exact orderly.distinct
  case others_nodup => exact orderly.others_nodup.filter _
  case mem_others_iff =>
    intro other
    rw [Audience.unsubscribe, Ledger.mem_listeners_unsubscribe,
      List.mem_filter, bne_iff_ne, orderly.mem_others_iff]
    exact and_right_comm
  case fits =>
    intro tenant isTenant
    refine (orderly.fits tenant isTenant).of_mem_iff ?_ (Nat.le_refl _)
    rw [Audience.unsubscribe, Ledger.mem_listeners_unsubscribe,
      and_iff_left_iff_imp]
    exact fun _ same => foreign (same ▸ List.mem_map_of_mem isTenant)

theorem Orderly.dispose
    (orderly : audience.Orderly) :
    audience.dispose.Orderly := by
  have indexed := orderly.consistent.indexed
  constructor
  case consistent => exact orderly.consistent.perform .dispose
  case enrolled => exact orderly.enrolled.perform indexed .dispose
  case distinct =>
    rw [ids_dispose]
    exact orderly.distinct
  case others_nodup => exact .nil
  case mem_others_iff => simp [Audience.dispose, Ledger.dispose]
  case fits =>
    intro tenant member
    obtain ⟨before, isTenant, rfl⟩ := List.mem_map.1 member
    have outlived : before.outlive.isCurrent = false := by
      simp [Tenant.isCurrent, Tenant.outlive]
    constructor
    case numbered => exact (orderly.fits before isTenant).numbered
    case present => simp [outlived]
    case absent => exact fun _ => List.not_mem_nil
    case goesOn => simp [outlived]

theorem Orderly.start
    (orderly : audience.Orderly)
    (arrangement : Arrangement)
    (debounce : Nat) :
    (audience.start arrangement debounce).Orderly := by
  have indexed := orderly.consistent.indexed
  have fresh := orderly.not_mem_ids
  constructor
  case consistent => exact orderly.consistent.perform .subscribe
  case enrolled => exact orderly.enrolled.perform indexed .subscribe
  case distinct =>
    rw [ids_start]
    simpa using orderly.distinct.concat fresh
  case others_nodup => exact orderly.others_nodup
  case mem_others_iff =>
    intro id
    have listeners :
        (audience.start arrangement debounce).ledger.listeners =
          audience.ledger.listeners ++ [audience.ledger.subscribe.2] :=
      rfl
    have old : id = audience.ledger.subscribe.2 → id ∉ audience.others :=
      fun same member => orderly.not_mem_listeners
        (same ▸ ((orderly.mem_others_iff id).1 member).1)
    have others := orderly.mem_others_iff id
    rw [ids_start, listeners, List.mem_append, List.mem_append,
      List.mem_singleton]
    rw [Audience.start]
    tauto
  case fits =>
    intro tenant member
    rcases List.mem_append.1 member with before | latest
    · exact orderly.fits_subscribe before
    · rw [List.mem_singleton.1 latest]
      have listens :
          audience.ledger.subscribe.2 ∈
            audience.ledger.subscribe.1.listeners :=
        List.mem_append_right _ List.mem_cons_self
      constructor
      case numbered => exact Nat.le_refl _
      case present => exact fun _ => listens
      case absent => exact nofun
      case goesOn => exact nofun

/-- A deed of a publisher takes no listener but its own. -/
theorem Orderly.follows
    (orderly : audience.Orderly)
    {index : Nat}
    {tenant successor : Tenant}
    {deed : Deed}
    {after : Ledger}
    (isTenant : audience.tenants[index]? = some tenant)
    (acted : tenant.act? audience.ledger deed = some (after, successor)) :
    Orderly
      { ledger := after
        others := audience.others
        tenants := audience.tenants.set index successor } := by
  have follows := Tenant.follows_of_act? acted
  obtain ⟨within, rfl⟩ := List.getElem?_eq_some_iff.1 isTenant
  obtain ⟨earlier, later, split, _, replaced⟩ :=
    @List.exists_of_set _ index successor audience.tenants within
  generalize audience.tenants[index] = tenant at *
  have indexed := orderly.consistent.indexed
  have ids :
      (audience.tenants.set index successor).map Tenant.id =
        audience.ids := by
    rw [replaced, Audience.ids, split]
    simp [follows.id]
  -- Ids tell publishers apart, so the deed of one concerns no other.
  have apart :
      ∀ other, other ∈ earlier ∨ other ∈ later → other.id ≠ tenant.id := by
    have distinct := orderly.distinct
    rw [Audience.ids, split, List.map_append, List.map_cons,
      List.nodup_middle, List.nodup_cons, ← List.map_append] at distinct
    intro other member same
    exact distinct.1
      (same ▸ List.mem_map_of_mem (List.mem_append.2 member))
  constructor
  case consistent =>
    obtain ⟨rfl, _⟩ | ⟨rfl, _⟩ := follows.after_eq
    · exact orderly.consistent
    · exact orderly.consistent.perform (.unsubscribe tenant.id)
  case enrolled =>
    obtain ⟨rfl, _⟩ | ⟨rfl, _⟩ := follows.after_eq
    · exact orderly.enrolled
    · exact orderly.enrolled.perform indexed (.unsubscribe tenant.id)
  case distinct =>
    simp only [Audience.ids, ids]
    exact orderly.distinct
  case others_nodup => exact orderly.others_nodup
  case mem_others_iff =>
    intro id
    simp only [Audience.ids, ids]
    rw [orderly.mem_others_iff]
    refine and_congr_left fun foreign => ?_
    refine (follows.mem_listeners_iff fun same => foreign ?_).symm
    rw [same, Audience.ids, split]
    simp
  case fits =>
    intro other member
    have stays (same : other ∈ earlier ∨ other ∈ later) :
        other.Fits after := by
      have isTenant : other ∈ audience.tenants := by
        rw [split]
        simp [same.imp_right Or.inr]
      exact (orderly.fits other isTenant).of_mem_iff
        (follows.mem_listeners_iff (apart other same))
        follows.subscriptionCount_eq.ge
    rw [replaced] at member
    rcases List.mem_append.1 member with before | rest
    · exact stays (.inl before)
    rcases List.mem_cons.1 rest with rfl | behind
    · exact (orderly.fits tenant (by simp [split])).follows follows
    · exact stays (.inr behind)

/-- Every move leaves an audience in order. -/
theorem Orderly.moved
    (orderly : audience.Orderly)
    {move : Move}
    (moved : audience.move? move = some next) :
    next.Orderly := by
  cases move with
  | ingest event =>
      cases moved
      exact orderly.ingest event
  | subscribe =>
      cases moved
      exact orderly.subscribe
  | unsubscribe id =>
      obtain ⟨foreign, same⟩ := Option.ite_none_left_eq_some.1 moved
      cases same
      exact orderly.unsubscribe foreign
  | dispose =>
      cases moved
      exact orderly.dispose
  | start arrangement debounce =>
      cases moved
      exact orderly.start arrangement debounce
  | act index deed =>
      obtain ⟨tenant, successor, after, isTenant, acted, rfl⟩ :=
        exists_of_act? moved
      exact orderly.follows isTenant acted

/-- Whether no subscription stays behind with nothing to remove it. -/
def IsStaffed (audience : Audience) : Prop :=
  ∀ tenant ∈ audience.tenants, tenant.tenure ≠ .abandoned

theorem IsStaffed.moved
    (staffed : audience.IsStaffed)
    {move : Move}
    (careful : move.abandons = false)
    (moved : audience.move? move = some next) :
    next.IsStaffed := by
  intro tenant member
  cases move with
  | ingest event =>
      cases moved
      obtain ⟨before, isTenant, rfl⟩ := List.mem_map.1 member
      exact staffed before isTenant
  | subscribe =>
      cases moved
      exact staffed tenant member
  | unsubscribe id =>
      obtain ⟨_, same⟩ := Option.ite_none_left_eq_some.1 moved
      cases same
      exact staffed tenant member
  | dispose =>
      cases moved
      obtain ⟨before, isTenant, rfl⟩ := List.mem_map.1 member
      exact staffed before isTenant
  | start arrangement debounce =>
      cases moved
      rcases List.mem_append.1 member with before | latest
      · exact staffed tenant before
      · rw [List.mem_singleton.1 latest]
        exact nofun
  | act index deed =>
      obtain ⟨before, successor, after, isTenant, acted, rfl⟩ :=
        exists_of_act? moved
      rcases List.mem_or_eq_of_mem_set member with same | rfl
      · exact staffed tenant same
      · intro abandoned
        rcases (Tenant.follows_of_act? acted).abandoned abandoned with
          was | rfl
        · exact staffed before (List.mem_of_getElem? isTenant) was
        · cases careful

theorem Orderly.nodup_listening
    (orderly : audience.Orderly) :
    (audience.others ++ audience.current).Nodup := by
  have sublist : audience.current.Sublist audience.ids :=
    List.filter_sublist.map Tenant.id
  refine List.nodup_append.2
    ⟨orderly.others_nodup, orderly.distinct.sublist sublist, ?_⟩
  intro other isOther own isOwn same
  exact ((orderly.mem_others_iff other).1 isOther).2
    (same ▸ sublist.subset isOwn)

theorem Orderly.subset_listeners
    (orderly : audience.Orderly) :
    audience.others ++ audience.current ⊆ audience.ledger.listeners := by
  intro id member
  rcases List.mem_append.1 member with isOther | isOwn
  · exact ((orderly.mem_others_iff id).1 isOther).1
  · obtain ⟨tenant, isCurrent, rfl⟩ := List.mem_map.1 isOwn
    obtain ⟨isTenant, current⟩ := List.mem_filter.1 isCurrent
    exact (orderly.fits tenant isTenant).present current

/-- Whoever listens to a ledger is to do so unless a removal is missing. -/
theorem Orderly.listeners_subset
    (orderly : audience.Orderly)
    (staffed : audience.IsStaffed)
    (settled : audience.IsSettled) :
    audience.ledger.listeners ⊆ audience.others ++ audience.current := by
  intro id listens
  by_cases isOwn : id ∈ audience.ids
  · obtain ⟨tenant, isTenant, rfl⟩ := List.mem_map.1 isOwn
    have fits := orderly.fits tenant isTenant
    have recent : tenant.isOutlived = false :=
      Bool.eq_false_iff.2 fun gone => fits.absent (.inl gone) listens
    have kept : tenant.tenure = .kept := by
      cases tenure : tenant.tenure with
      | kept => rfl
      | pending => exact absurd tenure (settled tenant isTenant)
      | abandoned => exact absurd tenure (staffed tenant isTenant)
      | released => exact absurd listens (fits.absent (.inr tenure))
    refine List.mem_append_right _ (List.mem_map_of_mem ?_)
    exact List.mem_filter.2
      ⟨isTenant, Tenant.isCurrent_iff.2 ⟨kept, recent⟩⟩
  · exact List.mem_append_left _
      ((orderly.mem_others_iff id).2 ⟨listens, isOwn⟩)

end Orderly

/--
However publishers are started and dropped, events ingested, others subscribed
and the ledger disposed of, and in whatever order tasks end and removals are
made up for: nobody who is to listen is left out, and once no removal is to come
nobody else listens. A publisher that the ledger was disposed of before never
changes it again, so it removes no listener that came later.
-/
theorem keeps_moveAll
    (accepts : Operation → Bool)
    (moves : List Move)
    (audience : Audience)
    (moved : (new accepts).moveAll? moves = some audience) :
    audience.Keeps moves := by
  have orderly : audience.Orderly :=
    holds_of_moveAll? (fun _ _ _ _ before => before.moved)
      (orderly_new accepts) moved
  constructor
  case perm =>
    intro careful settled
    have staffedNew : (new accepts).IsStaffed :=
      fun _ member => nomatch member
    have staffed : audience.IsStaffed :=
      holds_of_moveAll?
        (fun move member _ _ before =>
          before.moved (careful move member))
        staffedNew moved
    refine (List.perm_ext_iff_of_nodup orderly.enrolled.nodup
      orderly.nodup_listening).2 fun id => ?_
    exact ⟨fun listens => orderly.listeners_subset staffed settled listens,
      fun member => orderly.subset_listeners member⟩
  case subperm =>
    exact orderly.nodup_listening.subperm orderly.subset_listeners
  case outlived =>
    intro index tenant deed next isTenant isOutlived moved
    obtain ⟨same, successor, after, isSame, acted, rfl⟩ :=
      exists_of_act? moved
    obtain rfl := Option.some.inj (isTenant.symm.trans isSame)
    have fits := orderly.fits tenant (List.mem_of_getElem? isTenant)
    exact fits.eq_of_isOutlived isOutlived (Tenant.follows_of_act? acted)

/--
Two publishers are dropped, the second while the ledger is in use. A third one
outlives the ledger's disposal and removes its subscription twice after that.
-/
def season : List Move :=
  let arrangement : Arrangement := ⟨.repository, 0, .none⟩
  [.subscribe,
    .start arrangement 10,
    .start arrangement 10,
    .ingest (.created [.checkReport 1 1 "nightly"]),
    .act 0 (.proceed 0),
    .act 0 (.drop .free),
    .start arrangement 10,
    .act 1 (.drop .locked),
    .unsubscribe ⟨1⟩,
    .act 1 .abort,
    .subscribe,
    .act 1 .cleanUp,
    .dispose,
    .subscribe,
    .act 2 (.proceed 0),
    .start arrangement 10,
    .act 2 .leave,
    .act 2 (.drop .locked),
    .act 2 .cleanUp]

/-- The two who came after the disposal are the only ones left. -/
theorem keeps_season :
    (∀ move ∈ season, move.abandons = false) ∧
      ∃ audience,
        (new fun _ => true).moveAll? season = some audience ∧
          audience.IsSettled ∧
          audience.ledger.listeners = [⟨6⟩, ⟨7⟩] ∧
          audience.others = [⟨6⟩] ∧
          audience.current = [⟨7⟩] ∧
          audience.Keeps season := by
  have careful : ∀ move ∈ season, move.abandons = false := by decide
  have reached :
      ((new fun _ => true).moveAll? season).map (fun audience =>
          (decide audience.IsSettled, audience.ledger.listeners,
            audience.others, audience.current)) =
        some (true, [⟨6⟩, ⟨7⟩], [⟨6⟩], [⟨7⟩]) := by
    decide +kernel
  obtain ⟨audience, moved, same⟩ := Option.map_eq_some_iff.1 reached
  simp only [Prod.mk.injEq, decide_eq_true_eq] at same
  obtain ⟨settled, listeners, others, current⟩ := same
  exact ⟨careful, audience, moved, settled, listeners, others, current,
    keeps_moveAll _ season audience moved⟩

end Audience

end BackupHistory

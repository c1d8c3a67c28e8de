import Mathlib.Tactic.Cases
import OpenClaw.Followup.Adoption

/-!
Runs of the turn adoption protocol. `Sound` is the invariant: an unsettled admission is the
one its lifecycle is admitting, a lifecycle whose callbacks ran has only settled admissions,
and a completed one has run its callbacks or left a completion on the last admission. The log
counts follow the weak sets, so every clause of the protocol is read off a reachable state.
-/

namespace Followup.Adoption

open Transition

variable {s t : State} {l : LifecycleId} {a b : AdmissionId}

def Phase.isSettled : Phase → Bool
  | .settled _ => true
  | _ => false

/-- The admission has not decided yet whether the lifecycle is adopted. -/
def Phase.isOpen : Phase → Bool
  | .queued | .adopting => true
  | _ => false

theorem Phase.unsettled_of_isOpen {phase : Phase} (open_ : phase.isOpen = true) :
    phase.isSettled = false := by
  cases phase <;> first | rfl | exact absurd open_ Bool.false_ne_true

namespace State

def phase (s : State) (a : AdmissionId) : Phase := (s.admissions a).phase

def lifecycleOf (s : State) (a : AdmissionId) : LifecycleId := (s.admissions a).lifecycle

def reactionsOf (s : State) (a : AdmissionId) : List Reaction := (s.admissions a).reactions

/-- The admissions and what the weak sets say about their lifecycles. -/
structure Tabled (s : State) : Prop where
  known : ∀ l a, s.admitting l = some a → a < s.nextAdmission ∧ s.lifecycleOf a = l
  current : ∀ a < s.nextAdmission, (s.phase a).isSettled = false →
    s.admitting (s.lifecycleOf a) = some a
  release : ∀ a < s.nextAdmission, .release ∈ s.reactionsOf a →
    s.admitting (s.lifecycleOf a) = some a
  releaseOnce : ∀ a < s.nextAdmission, (s.reactionsOf a).count .release ≤ 1
  undecided : ∀ a < s.nextAdmission, (s.phase a).isOpen = true → s.lifecycleOf a ∉ s.admitted
  closed : ∀ l ∈ s.completedCallbacks, l ∈ s.completed ∧
    ∀ a < s.nextAdmission, s.lifecycleOf a = l → (s.phase a).isSettled = true
  finishing : ∀ a < s.nextAdmission, .finish ∈ s.reactionsOf a → s.lifecycleOf a ∈ s.completed ∧
    ∀ b < s.nextAdmission, b ≠ a → s.lifecycleOf b = s.lifecycleOf a →
      (s.phase b).isSettled = true

/-- The callbacks ran, or a completion waits on an admission. -/
def Owed (s : State) (l : LifecycleId) : Prop :=
  l ∈ s.completedCallbacks ∨
    ∃ a < s.nextAdmission, s.lifecycleOf a = l ∧ .finish ∈ s.reactionsOf a

/-- Once completed, no admission opens; once settled, no adoption starts. -/
def Follows (e f : Event) : Prop :=
  ∀ l, (e = .completeCalled l → f ≠ .admissionOpened l) ∧ (e = .settled l → f ≠ .adoptionStarted l)

/-- The log says what the weak sets say. -/
structure Logged (s : State) : Prop where
  adopted : ∀ l, s.log.count (.adopted l) = if l ∈ s.admitted then 1 else 0
  settled : ∀ l, s.log.count (.settled l) = if l ∈ s.completedCallbacks then 1 else 0
  abandoned : ∀ l, s.log.count (.abandoned l) =
    if l ∈ s.completedCallbacks ∧ l ∉ s.admitted then 1 else 0
  completed : ∀ l, .completeCalled l ∈ s.log ↔ l ∈ s.completed
  ordered : s.log.Pairwise Follows

structure Sound (s : State) : Prop where
  tabled : s.Tabled
  logged : s.Logged
  owed : ∀ l ∈ s.completed, s.Owed l

theorem sound_init : ({} : State).Sound where
  tabled := by constructor <;> simp
  logged := by constructor <;> simp
  owed := by simp

/-- The part of the state the invariant is about. -/
def core (s : State) : Finset LifecycleId × (LifecycleId → Option AdmissionId) ×
    Finset LifecycleId × Finset LifecycleId × (AdmissionId → Admission) × Nat × List Event :=
  (s.admitted, s.admitting, s.completed, s.completedCallbacks, s.admissions, s.nextAdmission, s.log)

theorem Sound.of_core (sound : s.Sound) (same : t.core = s.core) : t.Sound := by
  obtain ⟨⟩ := s
  obtain ⟨⟩ := t
  simp only [core, Prod.mk.injEq] at same
  obtain ⟨rfl, rfl, rfl, rfl, rfl, rfl, rfl⟩ := same
  obtain ⟨⟨known, current, release, once, undecided, closed, finishing⟩,
    ⟨adopted, settled, abandoned, completed, ordered⟩, owed⟩ := sound
  exact ⟨⟨known, current, release, once, undecided, closed, finishing⟩,
    ⟨adopted, settled, abandoned, completed, ordered⟩, owed⟩

/-- Appending an event that nothing in the log forbids. -/
theorem ordered_append {event : Event} {log : List Event} (ordered : log.Pairwise Follows)
    (allowed : ∀ l, (event = .admissionOpened l → .completeCalled l ∉ log) ∧
      (event = .adoptionStarted l → .settled l ∉ log)) : (log ++ [event]).Pairwise Follows := by
  refine List.pairwise_append.mpr ⟨ordered, List.pairwise_singleton _ _, fun e mem f last l => ?_⟩
  rw [List.mem_singleton.mp last]
  exact ⟨fun same opened => (allowed l).1 opened (same ▸ mem),
    fun same started => (allowed l).2 started (same ▸ mem)⟩

theorem Logged.settled_notMem (logged : s.Logged) (outside : l ∉ s.completedCallbacks) :
    .settled l ∉ s.log := by
  rw [← List.count_eq_zero, logged.settled, if_neg outside]


theorem count_record_of_ne {e f : Event} (other : f ≠ e) :
    (s.record f).log.count e = s.log.count e := by
  simp [record, other]

theorem Logged.started (logged : s.Logged) (outside : l ∉ s.completedCallbacks) :
    (s.record (.adoptionStarted l)).Logged := by
  refine ⟨fun l' => ?_, fun l' => ?_, fun l' => ?_, fun l' => ?_, ?_⟩
  · exact (count_record_of_ne (by simp)).trans (logged.adopted l')
  · exact (count_record_of_ne (by simp)).trans (logged.settled l')
  · exact (count_record_of_ne (by simp)).trans (logged.abandoned l')
  · simpa [record] using logged.completed l'
  · refine ordered_append logged.ordered fun l' => ⟨nofun, fun same => ?_⟩
    rw [← Event.adoptionStarted.inj same]
    exact logged.settled_notMem outside

theorem finish_of_done (done : l ∈ s.completedCallbacks) : s.finish l = s := by
  simp [finish, done]

/-- What the callbacks leave of the invariant's part of the state. -/
theorem finish_core (fresh : l ∉ s.completedCallbacks) : (s.finish l).core =
    (s.admitted, s.admitting, s.completed, insert l s.completedCallbacks, s.admissions,
      s.nextAdmission,
      s.log ++ (if l ∈ s.admitted then [] else [.abandoned l]) ++ [.settled l]) := by
  simp only [finish, fresh, if_false]
  by_cases admitted : l ∈ s.admitted
  · simp [admitted, core, record]
  · simp only [admitted, not_false_eq_true, if_true, if_false]
    simp only [releaseRecentQueueMessageId]
    split <;> simp [core, record]

/-- The callbacks run once every admission of the lifecycle is settled. -/
theorem Sound.finish (tabled : s.Tabled) (logged : s.Logged)
    (owed : ∀ l' ∈ s.completed, l' ≠ l → s.Owed l') (completed : l ∈ s.completed)
    (decided : ∀ a < s.nextAdmission, s.lifecycleOf a = l → (s.phase a).isSettled = true) :
    (s.finish l).Sound := by
  by_cases done : l ∈ s.completedCallbacks
  · rw [finish_of_done done]
    refine ⟨tabled, logged, fun l' mem => ?_⟩
    by_cases same : l' = l
    · exact .inl (same ▸ done)
    · exact owed l' mem same
  · have leaves := finish_core done
    have called : ({ s with
        completedCallbacks := insert l s.completedCallbacks
        log := s.log ++ (if l ∈ s.admitted then [] else [.abandoned l]) ++ [.settled l] } :
        State).Sound := by
      refine ⟨?_, ?_, ?_⟩
      · exact { tabled with
          closed := fun l' mem => by
            rcases Finset.mem_insert.mp mem with rfl | old
            · exact ⟨completed, decided⟩
            · exact tabled.closed l' old }
      · refine ⟨fun l' => ?_, fun l' => ?_, fun l' => ?_, fun l' => ?_, ?_⟩
        · have := logged.adopted l'
          split <;> simp_all
        · have := logged.settled l'
          by_cases same : l' = l <;> split <;> simp_all [Ne.symm]
        · have := logged.abandoned l'
          by_cases same : l' = l <;> split <;> simp_all [Ne.symm]
        · have := logged.completed l'
          split <;> simp_all
        · refine ordered_append ?_ fun _ => ⟨nofun, nofun⟩
          split
          · simpa using logged.ordered
          · exact ordered_append logged.ordered fun _ => ⟨nofun, nofun⟩
      · intro l' mem
        by_cases same : l' = l
        · exact .inl (same ▸ Finset.mem_insert_self _ _)
        · exact (owed l' mem same).imp_left Finset.mem_insert_of_mem
    exact called.of_core leaves


section Steps

@[simp] theorem phase_setAdmission {admission : Admission} : (s.setAdmission a admission).phase b =
    if b = a then admission.phase else s.phase b := by
  by_cases same : b = a <;> simp [phase, setAdmission, same]

@[simp] theorem lifecycleOf_setAdmission {admission : Admission} :
    (s.setAdmission a admission).lifecycleOf b =
      if b = a then admission.lifecycle else s.lifecycleOf b := by
  by_cases same : b = a <;> simp [lifecycleOf, setAdmission, same]

@[simp] theorem reactionsOf_setAdmission {admission : Admission} :
    (s.setAdmission a admission).reactionsOf b =
      if b = a then admission.reactions else s.reactionsOf b := by
  by_cases same : b = a <;> simp [reactionsOf, setAdmission, same]

theorem admissions_setAdmission {admission : Admission} :
    (s.setAdmission a admission).admissions b = if b = a then admission else s.admissions b :=
  Function.update_apply ..

/-- Reactions other than the release come and go; a completion only goes. -/
theorem Tabled.reactions (tabled : s.Tabled) {reactions : List Reaction}
    (release : reactions.count .release = (s.reactionsOf a).count .release)
    (finish : .finish ∈ reactions → .finish ∈ s.reactionsOf a) :
    (s.setAdmission a { s.admissions a with reactions }).Tabled := by
  obtain ⟨known, current, released, once, undecided, closed, finishing⟩ := tabled
  have admissions : ∀ b, (s.setAdmission a { s.admissions a with reactions }).admissions b =
      if b = a then { s.admissions a with reactions } else s.admissions b :=
    fun b => admissions_setAdmission
  have admitted : (s.setAdmission a { s.admissions a with reactions }).admitted = s.admitted := rfl
  have admitting : (s.setAdmission a { s.admissions a with reactions }).admitting =
    s.admitting := rfl
  have completed : (s.setAdmission a { s.admissions a with reactions }).completed =
    s.completed := rfl
  have callbacks : (s.setAdmission a { s.admissions a with reactions }).completedCallbacks =
    s.completedCallbacks := rfl
  have next : (s.setAdmission a { s.admissions a with reactions }).nextAdmission =
    s.nextAdmission := rfl
  generalize s.setAdmission a _ = t at *
  refine ⟨?_, ?_, ?_, ?_, ?_, ?_, ?_⟩
  all_goals
    simp only [phase, lifecycleOf, reactionsOf, admitted, admitting, completed, callbacks,
      next] at *
    simp only [← List.count_pos_iff (a := Reaction.release)] at *
    grind

/-- Waiting calls come and go without a trace. -/
theorem Sound.reactions (sound : s.Sound) {reactions : List Reaction}
    (release : reactions.count .release = (s.reactionsOf a).count .release)
    (finish : .finish ∈ reactions ↔ .finish ∈ s.reactionsOf a) :
    (s.setAdmission a { s.admissions a with reactions }).Sound := by
  refine ⟨sound.tabled.reactions release finish.mp, ⟨sound.logged.adopted, sound.logged.settled,
    sound.logged.abandoned, sound.logged.completed, sound.logged.ordered⟩, fun l mem => ?_⟩
  rcases sound.owed l mem with called | ⟨b, known, same, waits⟩
  · exact .inl called
  · refine .inr ⟨b, known, ?_, ?_⟩
    · rw [lifecycleOf_setAdmission]
      split
      case isTrue eq => exact eq ▸ same
      case isFalse => exact same
    · rw [reactionsOf_setAdmission]
      split
      case isTrue eq => exact finish.mpr (eq ▸ waits)
      case isFalse => exact waits

/-- A lifecycle that is neither adopted, admitting nor completed opens an admission. -/
theorem Sound.open_ (sound : s.Sound) (unadopted : l ∉ s.admitted) (idle : s.admitting l = none)
    (live : l ∉ s.completed) :
    (({ s with
      admitting := Function.update s.admitting l (some s.nextAdmission)
      admissions := Function.update s.admissions s.nextAdmission
        { lifecycle := l, reactions := [.release] }
      nextAdmission := s.nextAdmission + 1 } : State).record (.admissionOpened l)).Sound := by
  obtain ⟨tabled, logged, owed⟩ := sound
  generalize opened : State.record _ _ = t
  have log : t.log = s.log ++ [.admissionOpened l] := by rw [← opened]; rfl
  have admitted : t.admitted = s.admitted := by rw [← opened]; rfl
  have completed : t.completed = s.completed := by rw [← opened]; rfl
  have callbacks : t.completedCallbacks = s.completedCallbacks := by rw [← opened]; rfl
  have next : t.nextAdmission = s.nextAdmission + 1 := by rw [← opened]; rfl
  have admitting : ∀ l', t.admitting l' =
      if l' = l then some s.nextAdmission else s.admitting l' := by
    intro l'
    rw [← opened]
    exact Function.update_apply ..
  have admissions : ∀ b, t.admissions b =
      if b = s.nextAdmission then { lifecycle := l, reactions := [.release] }
      else s.admissions b := by
    intro b
    rw [← opened]
    exact Function.update_apply ..
  clear opened
  obtain ⟨known, current, release, once, undecided, closed, finishing⟩ := tabled
  refine ⟨⟨?_, ?_, ?_, ?_, ?_, ?_, ?_⟩, ⟨?_, ?_, ?_, ?_, ?_⟩, ?_⟩
  all_goals simp only [phase, lifecycleOf, reactionsOf, Owed] at *
  · grind
  · grind
  · grind
  · grind
  · grind [Phase.isOpen]
  · grind
  · grind
  · intro l'
    simp [log, admitted, logged.adopted]
  · intro l'
    simp [log, callbacks, logged.settled]
  · intro l'
    simp [log, callbacks, admitted, logged.abandoned]
  · intro l'
    simp [log, completed, logged.completed]
  · rw [log]
    refine ordered_append logged.ordered fun l' => ⟨fun same => ?_, nofun⟩
    rw [logged.completed, ← Event.admissionOpened.inj same]
    exact live
  · grind

theorem Sound.admission (sound : s.Sound) (run : FollowupLifecycleRun) :
    (s.admitFollowupRunLifecycle run).Sound := by
  rw [admitFollowupRunLifecycle]
  split
  · exact sound
  · split
    · exact sound
    · split
      case h_1 existing now =>
        exact sound.reactions (by simp [reactionsOf]) (by simp [reactionsOf])
      case h_2 unadopted _ idle =>
        split
        · exact sound
        · exact sound.open_ unadopted idle ‹_›

/-- Only the phase of one admission differs in the tables of two states. -/
structure Progressed (s t : State) (a : AdmissionId) (phase : Phase) : Prop where
  admitting : t.admitting = s.admitting
  completed : t.completed = s.completed
  callbacks : t.completedCallbacks = s.completedCallbacks
  next : t.nextAdmission = s.nextAdmission
  admissions : t.admissions = Function.update s.admissions a { s.admissions a with phase }

/-- An unsettled admission moves on; it may only decide for its own lifecycle. -/
theorem Tabled.progress {phase : Phase} (tabled : s.Tabled) (known : a < s.nextAdmission)
    (unsettled : (s.phase a).isSettled = false) (moved : Progressed s t a phase)
    (admitted : t.admitted = s.admitted ∧ (phase.isOpen = true → (s.phase a).isOpen = true) ∨
      t.admitted = insert (s.lifecycleOf a) s.admitted ∧ phase.isOpen = false) : t.Tabled := by
  obtain ⟨admitting, completed, callbacks, next, admissions⟩ := moved
  obtain ⟨known, current, release, once, undecided, closed, finishing⟩ := tabled
  have admissions : ∀ b, t.admissions b =
      if b = a then { s.admissions a with phase } else s.admissions b := fun b => by
    rw [admissions]
    exact Function.update_apply ..
  refine ⟨?_, ?_, ?_, ?_, ?_, ?_, ?_⟩
  all_goals
    rw [next]
    simp only [State.phase, lifecycleOf, reactionsOf, admitting, completed, callbacks] at *
    grind [Phase.unsettled_of_isOpen]

theorem Owed.progress {phase : Phase} (moved : Progressed s t a phase) (owed : s.Owed l) :
    t.Owed l := by
  obtain ⟨admitting, completed, callbacks, next, admissions⟩ := moved
  have admissions : ∀ b, t.admissions b =
      if b = a then { s.admissions a with phase } else s.admissions b := fun b => by
    rw [admissions]
    exact Function.update_apply ..
  simp only [Owed, lifecycleOf, reactionsOf] at *
  grind

theorem Sound.progress {phase : Phase} (sound : s.Sound) (known : a < s.nextAdmission)
    (unsettled : (s.phase a).isSettled = false) (moved : Progressed s t a phase)
    (admitted : t.admitted = s.admitted) (open_ : phase.isOpen = true → (s.phase a).isOpen = true)
    (log : t.log = s.log) : t.Sound := by
  refine ⟨sound.tabled.progress known unsettled moved (.inl ⟨admitted, open_⟩), ?_, ?_⟩
  · constructor
    · rw [log, admitted]
      exact sound.logged.adopted
    · rw [log, moved.callbacks]
      exact sound.logged.settled
    · rw [log, moved.callbacks, admitted]
      exact sound.logged.abandoned
    · rw [log, moved.completed]
      exact sound.logged.completed
    · rw [log]
      exact sound.logged.ordered
  · rw [moved.completed]
    exact fun l mem => (sound.owed l mem).progress moved

/-- The lifecycle of an unsettled admission has not run its callbacks. -/
theorem Tabled.uncalled (tabled : s.Tabled) (known : a < s.nextAdmission)
    (unsettled : (s.phase a).isSettled = false) : s.lifecycleOf a ∉ s.completedCallbacks := by
  intro called
  rw [(tabled.closed _ called).2 a known rfl] at unsettled
  exact absurd unsettled (by decide)

theorem Sound.startAdoption (sound : s.Sound) (taken : s.startAdoption a = some t) : t.Sound := by
  simp only [State.startAdoption] at taken
  split at taken
  case isFalse => cases taken
  case isTrue ready =>
    obtain ⟨known, queued⟩ := ready
    have unsettled : (s.phase a).isSettled = false := by rw [phase, queued]; rfl
    split at taken
    · cases taken
      exact sound.progress known unsettled ⟨rfl, rfl, rfl, rfl, rfl⟩ rfl (fun impossible => by cases impossible) rfl
    · cases taken
      have outside := sound.tabled.uncalled known unsettled
      have moved : Progressed s (s.setAdmission a { s.admissions a with phase := .adopting }) a
        .adopting := ⟨rfl, rfl, rfl, rfl, rfl⟩
      obtain ⟨tabled, logged, owed⟩ := sound.progress known unsettled moved rfl
        (fun _ => by rw [phase, queued]; rfl) rfl
      exact ⟨⟨tabled.1, tabled.2, tabled.3, tabled.4, tabled.5, tabled.6, tabled.7⟩,
        logged.started outside, owed⟩

theorem Sound.endAdoption (sound : s.Sound) {ok : Bool} (taken : s.endAdoption a ok = some t) :
    t.Sound := by
  simp only [State.endAdoption] at taken
  split at taken
  case isFalse => cases taken
  case isTrue ready =>
    obtain ⟨known, adopting⟩ := ready
    have unsettled : (s.phase a).isSettled = false := by rw [phase, adopting]; rfl
    cases ok with
    | false =>
        cases taken
        exact sound.progress known unsettled ⟨rfl, rfl, rfl, rfl, rfl⟩ rfl (fun impossible => by cases impossible) rfl
    | true =>
        cases taken
        have outside := sound.tabled.uncalled known unsettled
        have fresh : s.lifecycleOf a ∉ s.admitted :=
          sound.tabled.undecided a known (by rw [phase, adopting]; rfl)
        obtain ⟨tabled, logged, owed⟩ := sound
        simp only [if_true]
        generalize adopts : State.record _ _ = t
        have moved : Progressed s t a (.returned true) := by
          rw [← adopts]
          exact ⟨rfl, rfl, rfl, rfl, rfl⟩
        refine ⟨tabled.progress known unsettled moved (.inr ⟨by rw [← adopts]; rfl, rfl⟩), ?_, ?_⟩
        case refine_2 =>
          rw [moved.completed]
          exact fun l mem => (owed l mem).progress moved
        rw [← adopts]
        simp only [lifecycleOf] at fresh outside
        refine ⟨fun l => ?_, fun l => ?_, fun l => ?_, fun l => ?_, ?_⟩
        · by_cases same : l = (s.admissions a).lifecycle
          · simp [record, setAdmission, logged.adopted, same, fresh]
          · simp [record, setAdmission, logged.adopted, same, Ne.symm same]
        · exact (count_record_of_ne (by simp)).trans (logged.settled l)
        · by_cases same : l = (s.admissions a).lifecycle
          · simp [record, setAdmission, logged.abandoned, same, outside]
          · simp [record, setAdmission, logged.abandoned, same]
        · simpa [record, setAdmission] using logged.completed l
        · exact ordered_append logged.ordered fun l => ⟨nofun, nofun⟩

theorem Sound.settleAdmission (sound : s.Sound) (taken : s.settleAdmission a = some t) :
    t.Sound := by
  simp only [State.settleAdmission] at taken
  split at taken
  case h_2 => cases taken
  case h_1 ok returned =>
    split at taken
    case isFalse => cases taken
    case isTrue known =>
      cases taken
      exact sound.progress known (by rw [phase, returned]; rfl) ⟨rfl, rfl, rfl, rfl, rfl⟩ rfl
        (fun impossible => by cases impossible) rfl

/-- A completion waits on the admission that is under way. -/
theorem Sound.await (sound : s.Sound) (now : s.admitting l = some a) :
    (({ s with completed := insert l s.completed }.record (.completeCalled l)).setAdmission a
      { s.admissions a with
        reactions := (s.admissions a).reactions ++ [Reaction.finish] }).Sound := by
  obtain ⟨⟨known, current, release, once, undecided, closed, finishing⟩, logged, owed⟩ := sound
  generalize awaiting : setAdmission _ a _ = t
  have log : t.log = s.log ++ [.completeCalled l] := by rw [← awaiting]; rfl
  have admitted : t.admitted = s.admitted := by rw [← awaiting]; rfl
  have completed : t.completed = insert l s.completed := by rw [← awaiting]; rfl
  have callbacks : t.completedCallbacks = s.completedCallbacks := by rw [← awaiting]; rfl
  have next : t.nextAdmission = s.nextAdmission := by rw [← awaiting]; rfl
  have admitting : t.admitting = s.admitting := by rw [← awaiting]; rfl
  have admissions : ∀ b, t.admissions b = if b = a then
      { s.admissions a with reactions := (s.admissions a).reactions ++ [Reaction.finish] }
      else s.admissions b := by
    intro b
    rw [← awaiting]
    exact Function.update_apply ..
  clear awaiting
  have logs : t.Logged := by
    refine ⟨?_, ?_, ?_, ?_, ?_⟩
    · intro l'
      simp [log, admitted, logged.adopted]
    · intro l'
      simp [log, callbacks, logged.settled]
    · intro l'
      simp [log, callbacks, admitted, logged.abandoned]
    · intro l'
      simp [log, completed, logged.completed, eq_comm, or_comm]
    · rw [log]
      exact ordered_append logged.ordered fun l' => ⟨nofun, nofun⟩
  refine ⟨⟨?_, ?_, ?_, ?_, ?_, ?_, ?_⟩, logs, ?_⟩
  all_goals
    clear logged log
    simp only [phase, lifecycleOf, reactionsOf, Owed, next, admitting, completed,
      callbacks] at *
    grind

theorem Sound.complete (sound : s.Sound) (run : FollowupLifecycleRun) :
    (s.completeFollowupRunLifecycle run).Sound := by
  rw [completeFollowupRunLifecycle]
  split
  case h_1 => exact sound
  case h_2 l _ =>
    dsimp only
    split
    case h_2 pending now => exact sound.await now
    case h_1 idle =>
      change s.admitting l = none at idle
      obtain ⟨tabled, logged, owed⟩ := sound
      refine Sound.finish ?_ ?_ ?_ (Finset.mem_insert_self _ _) ?_
      · obtain ⟨known, current, release, once, undecided, closed, finishing⟩ := tabled
        exact ⟨known, current, release, once, undecided,
          fun l' mem => ⟨Finset.mem_insert_of_mem (closed l' mem).1, (closed l' mem).2⟩,
          fun a mem waits => ⟨Finset.mem_insert_of_mem (finishing a mem waits).1,
            (finishing a mem waits).2⟩⟩
      · refine ⟨fun l' => ?_, fun l' => ?_, fun l' => ?_, fun l' => ?_, ?_⟩
        · exact (count_record_of_ne (by simp)).trans (logged.adopted l')
        · exact (count_record_of_ne (by simp)).trans (logged.settled l')
        · exact (count_record_of_ne (by simp)).trans (logged.abandoned l')
        · simp [record, logged.completed, eq_comm, or_comm]
        · exact ordered_append logged.ordered fun l' => ⟨nofun, nofun⟩
      · exact fun l' mem other => owed l' ((Finset.mem_insert.mp mem).resolve_left other)
      · intro a known same
        by_contra unsettled
        have now := tabled.current a known (Bool.eq_false_iff.mpr unsettled)
        rw [show s.lifecycleOf a = l from same, idle] at now
        cases now

/-- The call that opened the admission takes it out of the map. -/
theorem Sound.release (sound : s.Sound) (known : a < s.nextAdmission)
    (settled : (s.phase a).isSettled = true) {reactions : List Reaction}
    (head : s.reactionsOf a = .release :: reactions) :
    ({ s.setAdmission a { s.admissions a with reactions } with
      admitting := Function.update s.admitting (s.lifecycleOf a) none } : State).Sound := by
  obtain ⟨⟨known', current, release, once, undecided, closed, finishing⟩, logged, owed⟩ := sound
  generalize left : ({ setAdmission _ _ _ with admitting := _ } : State) = t
  have log : t.log = s.log := by rw [← left]; rfl
  have admitted : t.admitted = s.admitted := by rw [← left]; rfl
  have completed : t.completed = s.completed := by rw [← left]; rfl
  have callbacks : t.completedCallbacks = s.completedCallbacks := by rw [← left]; rfl
  have next : t.nextAdmission = s.nextAdmission := by rw [← left]; rfl
  have admitting : ∀ l, t.admitting l = if l = s.lifecycleOf a then none else s.admitting l := by
    intro l
    rw [← left]
    exact Function.update_apply ..
  have admissions : ∀ b, t.admissions b = if b = a then { s.admissions a with reactions }
      else s.admissions b := by
    intro b
    rw [← left]
    exact Function.update_apply ..
  clear left
  have logs : t.Logged := by
    refine ⟨?_, ?_, ?_, ?_, ?_⟩
    · intro l'
      rw [log, admitted, logged.adopted]
    · intro l'
      rw [log, callbacks, logged.settled]
    · intro l'
      rw [log, callbacks, admitted, logged.abandoned]
    · intro l'
      rw [log, completed, logged.completed]
    · rw [log]
      exact logged.ordered
  refine ⟨⟨?_, ?_, ?_, ?_, ?_, ?_, ?_⟩, logs, ?_⟩
  all_goals
    clear logged log
    simp only [phase, lifecycleOf, reactionsOf, Owed, next, completed, callbacks] at *
    grind

theorem Sound.react (sound : s.Sound) (taken : s.react a = some t) : t.Sound := by
  simp only [State.react] at taken
  split at taken
  case h_2 => cases taken
  case h_1 ok reaction reactions settled head =>
    split at taken
    case isFalse => cases taken
    case isTrue known =>
      cases taken
      have done : (s.phase a).isSettled = true := by rw [phase, settled]; rfl
      cases reaction with
      | release => exact sound.release known done head
      | waiter => exact sound.reactions (by simp [reactionsOf, head]) (by simp [reactionsOf, head])
      | finish =>
          obtain ⟨completed, others⟩ := sound.tabled.finishing a known (by simp [reactionsOf, head])
          refine Sound.finish ?_ ?_ ?_ completed ?_
          · exact sound.tabled.reactions (by simp [reactionsOf, head])
              (by simp [reactionsOf, head])
          · exact ⟨sound.logged.adopted, sound.logged.settled, sound.logged.abandoned,
              sound.logged.completed, sound.logged.ordered⟩
          · intro l' mem other
            rcases sound.owed l' mem with called | ⟨b, inside, same, waits⟩
            · exact .inl called
            · have differs : b ≠ a := fun eq => other (by rw [← same, eq]; rfl)
              refine .inr ⟨b, inside, ?_, ?_⟩
              · rwa [lifecycleOf_setAdmission, if_neg differs]
              · rwa [reactionsOf_setAdmission, if_neg differs]
          · intro b inside same
            rw [phase_setAdmission]
            split
            case isTrue => exact done
            case isFalse differs =>
              rw [lifecycleOf_setAdmission, if_neg differs] at same
              exact others b inside differs same

end Steps
theorem Sound.step (sound : s.Sound) {label : Label} (taken : step s label = some t) : t.Sound := by
  cases label with
  | markEnqueued run accepts =>
      cases taken
      refine sound.of_core ?_
      rw [markFollowupRunEnqueued]
      split
      · rfl
      · split
        · rfl
        · cases accepts <;> rfl
  | retireCancellation run =>
      cases taken
      refine sound.of_core ?_
      rw [retireFollowupRunCancellation]
      split <;> rfl
  | admission run =>
      cases taken
      exact sound.admission run
  | complete run =>
      cases taken
      exact sound.complete run
  | startAdoption id => exact sound.startAdoption taken
  | endAdoption id ok => exact sound.endAdoption taken
  | settleAdmission id => exact sound.settleAdmission taken
  | react id => exact sound.react taken
  | recordMessageId run key =>
      cases taken
      exact sound.of_core rfl
  | expire key =>
      cases taken
      exact sound.of_core rfl

/-! ### The recent message ids -/

/-- A label that replaces or expires the entry of a key. -/
def renews (label : Label) (key : String) : Prop :=
  match label with
  | .recordMessageId _ other | .expire other => other = key
  | _ => False

/-- In this step `l` is abandoned, and its token holds the entry. -/
def ReleasedBy (s t : State) (key : String) (token : OwnerToken) (l : LifecycleId) : Prop :=
  s.ownerships (.inl l) = some (key, token) ∧
    ∃ before after, t.log = s.log ++ before ++ .abandoned l :: after

theorem finish_released {key : String} {token : OwnerToken}
    (held : s.recentMessageIds key = some token)
    (gone : (s.finish l).recentMessageIds key ≠ some token) :
    ReleasedBy s (s.finish l) key token l := by
  by_cases done : l ∈ s.completedCallbacks
  · rw [finish_of_done done] at gone
    exact absurd held gone
  by_cases admitted : l ∈ s.admitted
  · simp [finish, done, admitted, record, held] at gone
  simp only [finish, done, admitted, not_false_eq_true, if_true, if_false,
    releaseRecentQueueMessageId] at gone ⊢
  split at gone
  · exact absurd held gone
  case h_2 owned token' ownership =>
    change s.ownerships (.inl l) = some (owned, token') at ownership
    dsimp only [record] at gone
    split at gone
    case isFalse => exact absurd held gone
    case isTrue mine =>
      by_cases same : key = owned
      · subst same
        rw [held] at mine
        refine ⟨by rw [ownership, Option.some.inj mine], [], [.settled l], ?_⟩
        simp [record]
      · rw [Function.update_of_ne same] at gone
        exact absurd held gone

/-- Apart from renewal and expiry, an entry goes only when its owner is abandoned. -/
theorem released_by_owner {label : Label} (taken : step s label = some t) {key : String}
    {token : OwnerToken} (held : s.recentMessageIds key = some token)
    (gone : t.recentMessageIds key ≠ some token) (kept : ¬ renews label key) :
    ∃ l, ReleasedBy s t key token l := by
  have unchanged : t.recentMessageIds = s.recentMessageIds → ∃ l, ReleasedBy s t key token l :=
    fun same => absurd held (same ▸ gone)
  cases label with
  | markEnqueued run accepts =>
      cases taken
      refine unchanged ?_
      rw [markFollowupRunEnqueued]
      split
      · rfl
      · split
        · rfl
        · cases accepts <;> rfl
  | retireCancellation run =>
      cases taken
      refine unchanged ?_
      rw [retireFollowupRunCancellation]
      split <;> rfl
  | admission run =>
      cases taken
      refine unchanged ?_
      rw [admitFollowupRunLifecycle]
      split
      · rfl
      · split
        · rfl
        · split
          · rfl
          · split <;> rfl
  | complete run =>
      cases taken
      cases named : run.turnAdoptionLifecycle with
      | none => exact unchanged (by simp [completeFollowupRunLifecycle, named])
      | some l =>
          cases pending : s.admitting l with
          | some a =>
              exact unchanged (by
                simp [completeFollowupRunLifecycle, named, record, pending, setAdmission])
          | none =>
              have finishes : s.completeFollowupRunLifecycle run =
                  ({ s with completed := insert l s.completed }.record (.completeCalled l)).finish
                    l := by
                simp [completeFollowupRunLifecycle, named, record, pending]
              rw [finishes] at gone ⊢
              obtain ⟨owner, before, after, log⟩ := finish_released
                (s := State.record { s with completed := insert l s.completed } _) held gone
              refine ⟨l, owner, .completeCalled l :: before, after, ?_⟩
              rw [log]
              simp [record]
  | startAdoption id =>
      simp only [step, State.startAdoption] at taken
      split at taken
      case isFalse => cases taken
      case isTrue =>
        split at taken
        all_goals
          cases taken
          exact unchanged rfl
  | endAdoption id ok =>
      simp only [step, State.endAdoption] at taken
      split at taken
      case isFalse => cases taken
      case isTrue =>
        cases taken
        refine unchanged ?_
        cases ok <;> rfl
  | settleAdmission id =>
      simp only [step, State.settleAdmission] at taken
      split at taken
      case h_2 => cases taken
      case h_1 =>
        split at taken
        case isFalse => cases taken
        case isTrue =>
          cases taken
          exact unchanged rfl
  | react id =>
      simp only [step, State.react] at taken
      split at taken
      case h_2 => cases taken
      case h_1 ok reaction reactions settled head =>
        split at taken
        case isFalse => cases taken
        case isTrue =>
          cases taken
          cases reaction with
          | release => exact unchanged rfl
          | waiter => exact unchanged rfl
          | finish =>
              obtain ⟨owner, before, after, log⟩ :=
                finish_released (s := State.setAdmission s _ _) held gone
              exact ⟨_, owner, before, after, log⟩
  | recordMessageId run other =>
      cases taken
      have differs : key ≠ other := fun same => kept same.symm
      change Function.update s.recentMessageIds other _ key ≠ _ at gone
      rw [Function.update_of_ne differs] at gone
      exact absurd held gone
  | expire other =>
      cases taken
      have differs : key ≠ other := fun same => kept same.symm
      change Function.update s.recentMessageIds other _ key ≠ _ at gone
      rw [Function.update_of_ne differs] at gone
      exact absurd held gone

/-! ### Every run -/

structure Protocol (s : State) : Prop where
  adoptedOnce : ∀ l, s.log.count (.adopted l) ≤ 1
  settledOnce : ∀ l, s.log.count (.settled l) ≤ 1
  settledLast : ∀ l, .settled l ∈ s.log → ∀ a < s.nextAdmission, s.lifecycleOf a = l →
    (s.phase a).isSettled = true
  abandoned : ∀ l, .abandoned l ∈ s.log ↔ .settled l ∈ s.log ∧ .adopted l ∉ s.log
  drained : ∀ l, .completeCalled l ∈ s.log →
    (∀ a < s.nextAdmission, s.lifecycleOf a = l → s.reactionsOf a = []) → .settled l ∈ s.log
  ordered : s.log.Pairwise Follows
  released : ∀ label t key token, step s label = some t → s.recentMessageIds key = some token →
    t.recentMessageIds key ≠ some token → ¬ renews label key → ∃ l, ReleasedBy s t key token l

theorem Sound.protocol (sound : s.Sound) : s.Protocol := by
  have logged := sound.logged
  have settled : ∀ l, .settled l ∈ s.log ↔ l ∈ s.completedCallbacks := fun l => by
    rw [← List.count_pos_iff, logged.settled]
    split <;> simp_all
  have adopted : ∀ l, .adopted l ∈ s.log ↔ l ∈ s.admitted := fun l => by
    rw [← List.count_pos_iff, logged.adopted]
    split <;> simp_all
  refine ⟨fun l => ?_, fun l => ?_, fun l mem => ?_, fun l => ?_, fun l mem idle => ?_,
    logged.ordered, fun _ _ _ _ taken held gone kept => released_by_owner taken held gone kept⟩
  · rw [logged.adopted]
    split <;> decide
  · rw [logged.settled]
    split <;> decide
  · exact (sound.tabled.closed l ((settled l).mp mem)).2
  · rw [settled, adopted, ← List.count_pos_iff, logged.abandoned]
    split <;> simp_all
  · rw [settled]
    refine (sound.owed l ((logged.completed l).mp mem)).resolve_right ?_
    rintro ⟨a, known, same, waits⟩
    rw [idle a known same] at waits
    cases waits

/-- Whatever the order of calls and microtasks: a lifecycle is adopted at most once and settles at
most once, after its admissions; it is abandoned exactly if it settles without an adoption; no
admission opens once it is completed and no adoption starts once it is settled. -/
theorem adoption_protocol (run : Reaches step Any {} s) : s.Protocol :=
  (run.invariant sound_init fun _ _ _ sound _ taken => sound.step taken).protocol

def retried : FollowupLifecycleRun := ⟨0, some 0⟩

/-- A failed admission, and a completion while a second one is under way. -/
theorem adoption_protocol_retried : ∃ s, Reaches step Any {} s ∧ s.Protocol ∧
    .abandoned 0 ∈ s.log := by
  obtain ⟨s, run, abandoned⟩ := Reaches.exists_of_exec step Any {} (P := fun s =>
      Event.abandoned 0 ∈ s.log)
    [.recordMessageId retried "id", .admission retried, .startAdoption 0, .endAdoption 0 false,
      .settleAdmission 0, .react 0, .admission retried,
      .complete (createOverflowSummaryRetrySource retried 1), .startAdoption 1,
      .endAdoption 1 false, .settleAdmission 1, .react 1, .react 1]
    (by decide) (by decide)
  exact ⟨s, run, adoption_protocol run, abandoned⟩

/-- An admission that was opened before the completion may still start its adoption after it. -/
theorem adoption_starts_after_completion : ¬ ∀ s, Reaches step Any {} s →
    s.log.Pairwise fun e f => ¬ (e = .completeCalled 0 ∧ f = .adoptionStarted 0) := by
  intro never
  obtain ⟨s, run, started⟩ := Reaches.exists_of_exec step Any {} (P := fun s =>
      s.log = [.admissionOpened 0, .completeCalled 0, .adoptionStarted 0])
    [.admission retried, .complete retried, .startAdoption 0] (by decide) (by decide)
  have ordered := never s run
  rw [started] at ordered
  exact absurd ordered (by decide)

end State
end Followup.Adoption

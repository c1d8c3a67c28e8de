import OpenClaw.Lib.Precedence
import OpenClaw.Routing.Bindings

/-!
What the buckets and the index hold: the evaluated bindings of a channel that are for one
account or for any, in source order, sorted into one slot each. A route finds the least of the
bindings whose scope it meets, by the rank of their slots and then in source order.
-/

namespace OpenClaw.Routing

open JsUnits

variable {mapping : CaseMapping} {evaluated : EvaluatedBinding} {channel accountId : Text}

/-- The loop of `buildFrom` without its buckets. -/
def evaluateFrom (mapping : CaseMapping) : Nat → Nat → List AgentBinding → List EvaluatedBinding
  | _, _, [] => []
  | place, order, binding :: rest =>
      let matches_ := normalizeBindingMatch mapping binding.matches_
      if normalizeLowercaseStringOrEmpty mapping binding.matches_.channel = [] ∨
          matches_.peer = .invalid then evaluateFrom mapping (place + 1) order rest
      else
        { place, binding, matches_, order } :: evaluateFrom mapping (place + 1) (order + 1) rest

namespace EvaluatedBinding

def isOf (mapping : CaseMapping) (evaluated : EvaluatedBinding) (channel : Text) : Bool :=
  normalizeLowercaseStringOrEmpty mapping evaluated.binding.matches_.channel = channel

def isForAny (evaluated : EvaluatedBinding) : Bool := evaluated.matches_.accountPattern = anyAccount

def isScopedTo (mapping : CaseMapping) (evaluated : EvaluatedBinding) (accountId : Text) : Bool :=
  !evaluated.isForAny &&
    normalizeAccountId mapping (some evaluated.matches_.accountPattern) = accountId

def isFor (mapping : CaseMapping) (evaluated : EvaluatedBinding) (channel accountId : Text) : Bool :=
  evaluated.isOf mapping channel && (evaluated.isScopedTo mapping accountId || evaluated.isForAny)

end EvaluatedBinding

theorem evaluateFrom_spec (place order : Nat) (bindings : List AgentBinding) :
    (evaluateFrom mapping place order bindings).Pairwise (fun first second =>
        first.order < second.order) ∧
      ∀ evaluated, evaluated ∈ evaluateFrom mapping place order bindings → order ≤ evaluated.order := by
  induction bindings generalizing place order with
  | nil => exact ⟨.nil, fun _ mem => absurd mem List.not_mem_nil⟩
  | cons binding rest ih =>
      simp only [evaluateFrom]
      split
      case isTrue => exact ih (place + 1) order
      case isFalse =>
        obtain ⟨sorted, above⟩ := ih (place + 1) (order + 1)
        refine ⟨List.pairwise_cons.mpr ⟨fun other mem => ?_, sorted⟩, fun other mem => ?_⟩
        · exact above other mem
        · rcases List.mem_cons.mp mem with rfl | later
          · exact le_rfl
          · exact (Nat.le_succ _).trans (above other later)

theorem mem_evaluateFrom {place order : Nat} {bindings : List AgentBinding}
    (mem : evaluated ∈ evaluateFrom mapping place order bindings) :
    place ≤ evaluated.place ∧ bindings[evaluated.place - place]? = some evaluated.binding ∧
      evaluated.matches_ = normalizeBindingMatch mapping evaluated.binding.matches_ ∧
      evaluated.matches_.peer ≠ .invalid ∧
      normalizeLowercaseStringOrEmpty mapping evaluated.binding.matches_.channel ≠ [] := by
  induction bindings generalizing place order with
  | nil => cases mem
  | cons binding rest ih =>
      simp only [evaluateFrom] at mem
      have later : ∀ {order}, evaluated ∈ evaluateFrom mapping (place + 1) order rest →
          place ≤ evaluated.place ∧
            (binding :: rest)[evaluated.place - place]? = some evaluated.binding ∧
            evaluated.matches_ = normalizeBindingMatch mapping evaluated.binding.matches_ ∧
            evaluated.matches_.peer ≠ .invalid ∧
            normalizeLowercaseStringOrEmpty mapping evaluated.binding.matches_.channel ≠ [] := by
        intro order mem
        obtain ⟨above, found, kept⟩ := ih mem
        refine ⟨by omega, ?_, kept⟩
        rw [show evaluated.place - place = evaluated.place - (place + 1) + 1 by omega]
        exact found
      split at mem
      case isTrue => exact later mem
      case isFalse valid =>
        rcases List.mem_cons.mp mem with rfl | mem
        · rw [not_or] at valid
          exact ⟨le_rfl, by simp, rfl, valid.2, valid.1⟩
        · exact later mem

/-- A binding is evaluated unless it names no channel or a peer that is none. -/
theorem exists_evaluateFrom {place order index : Nat} {bindings : List AgentBinding}
    {binding : AgentBinding} (found : bindings[index]? = some binding)
    (channel : normalizeLowercaseStringOrEmpty mapping binding.matches_.channel ≠ [])
    (peer : (normalizeBindingMatch mapping binding.matches_).peer ≠ .invalid) :
    ∃ evaluated ∈ evaluateFrom mapping place order bindings, evaluated.place = place + index ∧
      evaluated.binding = binding := by
  induction bindings generalizing place order index with
  | nil => simp at found
  | cons head rest ih =>
      simp only [evaluateFrom]
      cases index with
      | zero =>
          obtain rfl := Option.some.inj found
          rw [if_neg (not_or.mpr ⟨channel, peer⟩)]
          exact ⟨_, List.mem_cons_self, rfl, rfl⟩
      | succ index =>
          rw [List.getElem?_cons_succ] at found
          split
          case isTrue =>
            obtain ⟨evaluated, mem, same, kept⟩ := @ih (place + 1) order index found
            exact ⟨evaluated, mem, by omega, kept⟩
          case isFalse =>
            obtain ⟨evaluated, mem, same, kept⟩ := @ih (place + 1) (order + 1) index found
            exact ⟨evaluated, List.mem_cons_of_mem _ mem, by omega, kept⟩

theorem place_injective {place order : Nat} {bindings : List AgentBinding}
    {first second : EvaluatedBinding} (mem : first ∈ evaluateFrom mapping place order bindings)
    (mem' : second ∈ evaluateFrom mapping place order bindings) (same : first.place = second.place) :
    first = second := by
  induction bindings generalizing place order with
  | nil => cases mem
  | cons head rest ih =>
      simp only [evaluateFrom] at mem mem'
      split at mem
      case isTrue skip =>
        rw [if_pos skip] at mem'
        exact ih mem mem'
      case isFalse keep =>
        rw [if_neg keep] at mem'
        rcases List.mem_cons.mp mem with rfl | later <;> rcases List.mem_cons.mp mem' with rfl | later'
        · rfl
        · have := (mem_evaluateFrom later').1
          simp only at same
          omega
        · have := (mem_evaluateFrom later).1
          simp only at same
          omega
        · exact ih later later'

def accountBucket (byChannel : JsMap Text EvaluatedBindingsByChannel) (channel accountId : Text) :
    List EvaluatedBinding :=
  ((byChannel.get? channel).bind fun bucket => bucket.byAccount.get? accountId).getD []

def anyBucket (byChannel : JsMap Text EvaluatedBindingsByChannel) (channel : Text) :
    List EvaluatedBinding :=
  ((byChannel.get? channel).map EvaluatedBindingsByChannel.byAnyAccount).getD []

/-- One more binding in the buckets of its channel. -/
theorem buckets_set {byChannel : JsMap Text EvaluatedBindingsByChannel} {own : Text}
    (here : evaluated.isOf mapping channel = decide (own = channel)) :
    accountBucket (byChannel.set own
        (((byChannel.get? own).getD ⟨.empty, []⟩).add mapping evaluated)) channel accountId =
      accountBucket byChannel channel accountId ++
        [evaluated].filter (fun evaluated =>
          evaluated.isOf mapping channel && evaluated.isScopedTo mapping accountId) ∧
    anyBucket (byChannel.set own
        (((byChannel.get? own).getD ⟨.empty, []⟩).add mapping evaluated)) channel =
      anyBucket byChannel channel ++
        [evaluated].filter (fun evaluated => evaluated.isOf mapping channel && evaluated.isForAny) := by
  by_cases same : own = channel
  · subst same
    have own_channel : evaluated.isOf mapping own = true := here.trans (decide_eq_true rfl)
    simp only [accountBucket, anyBucket, JsMap.get?_set_self, Option.bind_some, Option.map_some,
      Option.getD_some, EvaluatedBindingsByChannel.add, EvaluatedBinding.isScopedTo,
      EvaluatedBinding.isForAny, List.filter_cons, List.filter_nil, own_channel, Bool.true_and]
    by_cases any : evaluated.matches_.accountPattern = anyAccount
    · cases byChannel.get? own <;> simp [any, JsMap.get?_empty]
    · by_cases account : normalizeAccountId mapping (some evaluated.matches_.accountPattern) = accountId
      · subst account
        cases byChannel.get? own <;> simp [any]
      · cases byChannel.get? own <;> simp [any, account, JsMap.get?_set_of_ne (Ne.symm account)]
  · simp [accountBucket, anyBucket, JsMap.get?_set_of_ne (Ne.symm same), here, same]

theorem buildFrom_buckets (place order : Nat) (bindings : List AgentBinding)
    (byChannel : JsMap Text EvaluatedBindingsByChannel) (channel accountId : Text) :
    accountBucket (buildFrom mapping place order bindings byChannel) channel accountId =
      accountBucket byChannel channel accountId ++
        (evaluateFrom mapping place order bindings).filter (fun evaluated =>
          evaluated.isOf mapping channel && evaluated.isScopedTo mapping accountId) ∧
    anyBucket (buildFrom mapping place order bindings byChannel) channel =
      anyBucket byChannel channel ++
        (evaluateFrom mapping place order bindings).filter (fun evaluated =>
          evaluated.isOf mapping channel && evaluated.isForAny) := by
  induction bindings generalizing place order byChannel with
  | nil => simp [buildFrom, evaluateFrom]
  | cons binding rest ih =>
      simp only [buildFrom, evaluateFrom]
      by_cases unnamed : normalizeLowercaseStringOrEmpty mapping binding.matches_.channel = []
      · rw [if_pos unnamed, if_pos (.inl unnamed)]
        exact ih (place + 1) order byChannel
      · rw [if_neg unnamed]
        by_cases invalid : (normalizeBindingMatch mapping binding.matches_).peer = .invalid
        · rw [if_pos invalid, if_pos (.inr invalid)]
          exact ih (place + 1) order byChannel
        · rw [if_neg invalid, if_neg (not_or.mpr ⟨unnamed, invalid⟩)]
          obtain ⟨bound, any⟩ := @buckets_set mapping
            ⟨place, binding, normalizeBindingMatch mapping binding.matches_, order⟩ channel accountId
            byChannel (normalizeLowercaseStringOrEmpty mapping binding.matches_.channel) rfl
          obtain ⟨bound', any'⟩ := ih (place + 1) (order + 1) (byChannel.set
            (normalizeLowercaseStringOrEmpty mapping binding.matches_.channel)
            (((byChannel.get? (normalizeLowercaseStringOrEmpty mapping
              binding.matches_.channel)).getD ⟨.empty, []⟩).add mapping
                ⟨place, binding, normalizeBindingMatch mapping binding.matches_, order⟩))
          rw [bound', any', bound, any, List.append_assoc, List.append_assoc, ← List.filter_append,
            ← List.filter_append, List.singleton_append]
          exact ⟨rfl, rfl⟩

theorem nil_merge (items : List EvaluatedBinding) :
    mergeEvaluatedBindingsInSourceOrder [] items = items := by
  rw [mergeEvaluatedBindingsInSourceOrder]

theorem merge_nil (items : List EvaluatedBinding) :
    mergeEvaluatedBindingsInSourceOrder items [] = items := by
  cases items with
  | nil => exact nil_merge []
  | cons => rw [mergeEvaluatedBindingsInSourceOrder]; rintro ⟨⟩

/-- Merging two parts of a list in source order gives the list of both. -/
theorem merge_filter {items : List EvaluatedBinding} {p q : EvaluatedBinding → Bool}
    (sorted : items.Pairwise fun first second => first.order < second.order)
    (apart : ∀ item ∈ items, p item = true → q item = false) :
    mergeEvaluatedBindingsInSourceOrder (items.filter p) (items.filter q) =
      items.filter fun item => p item || q item := by
  induction items with
  | nil => exact nil_merge []
  | cons item rest ih =>
      obtain ⟨below, sorted⟩ := List.pairwise_cons.mp sorted
      have ih := ih sorted fun other mem => apart other (List.mem_cons_of_mem _ mem)
      cases left : p item with
      | true =>
          have right := apart item List.mem_cons_self left
          rw [List.filter_cons_of_pos left, List.filter_cons_of_neg (by simp [right]),
            List.filter_cons_of_pos (by simp [left]), ← ih]
          cases others : rest.filter q with
          | nil => rw [merge_nil, merge_nil]
          | cons other others' =>
              have mem : other ∈ rest.filter q := by simp [others]
              have := below other (List.mem_filter.mp mem).1
              rw [mergeEvaluatedBindingsInSourceOrder, if_pos this.le]
      | false =>
          cases right : q item with
          | true =>
              rw [List.filter_cons_of_neg (by simp [left]), List.filter_cons_of_pos right,
                List.filter_cons_of_pos (by simp [right]), ← ih]
              cases others : rest.filter p with
              | nil => rw [nil_merge, nil_merge]
              | cons other others' =>
                  have mem : other ∈ rest.filter p := by simp [others]
                  have := below other (List.mem_filter.mp mem).1
                  rw [mergeEvaluatedBindingsInSourceOrder, if_neg (by omega)]
          | false =>
              rw [List.filter_cons_of_neg (by simp [left]), List.filter_cons_of_neg (by simp [right]),
                List.filter_cons_of_neg (by simp [left, right]), ih]

theorem getEvaluatedBindings_eq (bindings : List AgentBinding) :
    getEvaluatedBindingsForChannelAccount mapping bindings channel accountId =
      (evaluateFrom mapping 0 0 bindings).filter fun evaluated =>
        evaluated.isFor mapping channel accountId := by
  obtain ⟨bound, any⟩ := @buildFrom_buckets mapping 0 0 bindings .empty channel accountId
  have empty : accountBucket .empty channel accountId = [] ∧ anyBucket .empty channel = [] := ⟨rfl, rfl⟩
  rw [empty.1, List.nil_append] at bound
  rw [empty.2, List.nil_append] at any
  refine (congrArg₂ mergeEvaluatedBindingsInSourceOrder bound any).trans ?_
  rw [merge_filter (evaluateFrom_spec 0 0 bindings).1]
  · congr 1
    funext evaluated
    simp only [EvaluatedBinding.isFor, Bool.and_or_distrib_left]
  · intro evaluated _ both
    simp only [EvaluatedBinding.isScopedTo, Bool.and_eq_true, Bool.not_eq_true'] at both
    simp [both.2.1]

end OpenClaw.Routing

import OpenClaw.Outcomes.Validity

/-!
The evidence history of a record. An observation is merged into it by evidence id, and the id
tells neither when a source was observed nor how its card was linked; so the history is only
appended to exactly if no stored entry is observed anew with other values.
-/

namespace Outcomes

open Transition

variable {H : Digests} {r o : OutcomeRecord} {current observed evidence : List EvidenceRef}
  {item : EvidenceRef} {projections : List WorkProjection} {expectedRevision : Nat}
  {serverTime : Int} {res : Result} {op : Operation}

/-- Every entry stays as it is, and what is new was observed. -/
structure AppendOnly (before observed after : List EvidenceRef) : Prop where
  kept : ∀ item ∈ before, item ∈ after
  new : ∀ item ∈ after, item ∈ before ∨ item ∈ observed

/-- An entry that is observed under the id of a stored one is that one. -/
def Agrees (before observed : List EvidenceRef) : Prop :=
  ∀ old ∈ before, ∀ item ∈ observed, item.id = old.id → item = old

theorem keys_evidence (items : List EvidenceRef) :
    (items.map fun item => (item.id, item)).map Prod.fst = items.map EvidenceRef.id := by
  rw [List.map_map]
  rfl

/-- An entry is observed, or stored under an id that is not observed. -/
theorem mem_mergeEvidence_iff (stored : (current.map EvidenceRef.id).Nodup)
    (fresh : (observed.map EvidenceRef.id).Nodup) :
    item ∈ OutcomeRecord.mergeEvidence current observed ↔
      item ∈ observed ∨ item ∈ current ∧ item.id ∉ observed.map EvidenceRef.id := by
  rw [← keys_evidence] at stored fresh
  rw [OutcomeRecord.mergeEvidence, JsArray.mem_toSorted, JsMap.mem_values]
  constructor
  · rintro ⟨id, mem⟩
    rcases JsMap.mem_insertAll mem with new | ⟨old, outside⟩
    · obtain ⟨_, inside, same⟩ := List.mem_map.mp new
      cases same
      exact .inl inside
    · rw [keys_evidence] at outside
      obtain ⟨_, inside, same⟩ := List.mem_map.mp (JsMap.mem_ofList old)
      cases same
      exact .inr ⟨inside, outside⟩
  · rintro (new | ⟨old, outside⟩)
    · exact ⟨item.id, JsMap.mem_insertAll_of_nodup fresh (List.mem_map.mpr ⟨item, new, rfl⟩)⟩
    · refine ⟨item.id, JsMap.mem_insertAll_of_notMem ((JsMap.mem_ofList_iff stored).mpr
        (List.mem_map.mpr ⟨item, old, rfl⟩)) ?_⟩
      rwa [keys_evidence]

theorem appendOnly_iff (stored : (current.map EvidenceRef.id).Nodup)
    (fresh : (observed.map EvidenceRef.id).Nodup) :
    AppendOnly current observed (OutcomeRecord.mergeEvidence current observed) ↔
      Agrees current observed := by
  constructor
  · rintro ⟨kept, _⟩ old mem item inside id
    rcases (mem_mergeEvidence_iff stored fresh).mp (kept old mem) with again | ⟨_, outside⟩
    · exact List.inj_on_of_nodup_map fresh inside again id
    · exact absurd (List.mem_map.mpr ⟨item, inside, id⟩) outside
  · intro agrees
    refine ⟨fun old mem => (mem_mergeEvidence_iff stored fresh).mpr ?_, fun item mem => ?_⟩
    · by_cases known : old.id ∈ observed.map EvidenceRef.id
      · obtain ⟨item, inside, id⟩ := List.mem_map.mp known
        exact .inl (agrees old mem item inside id ▸ inside)
      · exact .inr ⟨mem, known⟩
    · rcases (mem_mergeEvidence_iff stored fresh).mp mem with new | ⟨old, _⟩
      · exact .inr new
      · exact .inl old

namespace OutcomeRecord

/-- An accepted refresh merges its evidence, whose ids differ. -/
theorem evidence_refresh
    (updated : (r.reduceOutcomeRefresh expectedRevision projections evidence serverTime).kind =
      .updated) : (evidence.map EvidenceRef.id).Nodup ∧
    (r.reduceOutcomeRefresh expectedRevision projections evidence serverTime).record.evidence =
      mergeEvidence r.evidence evidence := by
  unfold reduceOutcomeRefresh at updated ⊢
  split at updated
  · cases updated
  split at updated
  · cases updated
  dsimp only at updated ⊢
  split at updated
  · cases updated
  split at updated
  · cases updated
  case isFalse checked =>
    split at updated
    · cases updated
    case isFalse expected live linked few =>
      rw [if_neg expected, if_neg live, if_neg linked, if_neg checked, if_neg few]
      simp only [not_or, not_not] at checked
      have apart := checked.1
      rw [← List.length_map EvidenceRef.id, JsArray.distinct_eq_length_iff] at apart
      exact ⟨apart, rfl⟩

theorem evidence_observe {observation : Option (List WorkProjection)}
    (seen : r.observe observation (some evidence) serverTime = .ok o) :
    (evidence.map EvidenceRef.id).Nodup ∧ o.evidence = mergeEvidence r.evidence evidence := by
  unfold observe at seen
  cases observation with
  | none => cases seen
  | some projections =>
      dsimp only at seen
      split at seen
      case isTrue updated =>
        obtain ⟨apart, merged⟩ := evidence_refresh updated
        cases seen
        exact ⟨apart, merged⟩
      case isFalse =>
        split at seen <;> cases seen

/-- An update that goes through kept the evidence of the observed record. -/
theorem evidence_conclude {observation : Option (List WorkProjection)}
    {verdict : OutcomeRecord → Except FailureReason OutcomeRecord}
    (keeps : ∀ o next, verdict o = .ok next → next.evidence = o.evidence)
    (updated : (r.conclude (do
      let o ← r.observe observation (some evidence) serverTime
      verdict o)).kind = .updated) :
    (evidence.map EvidenceRef.id).Nodup ∧ (r.conclude (do
      let o ← r.observe observation (some evidence) serverTime
      verdict o)).record.evidence = mergeEvidence r.evidence evidence := by
  cases concluded : (do
      let o ← r.observe observation (some evidence) serverTime
      verdict o) with
  | error reason =>
      rw [concluded] at updated
      cases updated
  | ok next =>
      obtain ⟨o, seen, taken⟩ := bind_eq_ok concluded
      obtain ⟨apart, merged⟩ := evidence_observe seen
      exact ⟨apart, (keeps o next taken).trans merged⟩

end OutcomeRecord

theorem OutcomeRecord.not_fresh_answerRecorded {previousHash requestHash : String}
    (updated : (r.answerRecorded previousHash requestHash).kind = .updated) :
    (r.answerRecorded previousHash requestHash).replayed = true := by
  unfold OutcomeRecord.answerRecorded at updated ⊢
  split at updated
  case isTrue same => rw [if_pos same]
  case isFalse => cases updated

namespace Operation

/-- The evidence of the observation that an operation brings along. -/
def observedEvidence : Operation → Option (List EvidenceRef)
  | refresh _ _ evidence _ => some evidence
  | verifyCriterion mutation => mutation.evidence
  | accept mutation => mutation.evidence
  | _ => none

theorem evidence_of_apply (brings : op.observedEvidence = some evidence)
    (applied : op.apply H r = some res) (updated : res.kind = .updated) (fresh : res.replayed = false) :
    (evidence.map EvidenceRef.id).Nodup ∧
      res.record.evidence = OutcomeRecord.mergeEvidence r.evidence evidence := by
  cases op with
  | update | link | unlink | activate | cancel => cases brings
  | refresh expectedRevision projections items serverTime =>
      cases brings
      cases applied
      exact OutcomeRecord.evidence_refresh updated
  | verifyCriterion mutation =>
      simp only [apply, Option.some.injEq] at applied
      subst applied
      change mutation.evidence = some evidence at brings
      unfold OutcomeRecord.reduceOutcomeDecision at updated fresh ⊢
      cases found : r.decisions.find? fun decision => decision.id = mutation.id with
      | some previous =>
          simp only [found] at updated fresh
          exact absurd (fresh.symm.trans (OutcomeRecord.not_fresh_answerRecorded updated)) (by decide)
      | none =>
          simp only [found] at updated ⊢
          split at updated
          · cases updated
          case isFalse expected =>
            rw [if_neg expected]
            rw [brings] at updated ⊢
            refine OutcomeRecord.evidence_conclude (fun o next decided => ?_) updated
            obtain ⟨_, _, _, _, rfl⟩ := OutcomeRecord.decide_eq_ok decided
            rfl
  | accept mutation =>
      simp only [apply, Option.some.injEq] at applied
      subst applied
      change mutation.evidence = some evidence at brings
      unfold OutcomeRecord.reduceOutcomeAcceptance at updated fresh ⊢
      cases found : r.acceptances.find? fun acceptance => acceptance.id = mutation.id with
      | some previous =>
          simp only [found] at updated fresh
          exact absurd (fresh.symm.trans (OutcomeRecord.not_fresh_answerRecorded updated)) (by decide)
      | none =>
          simp only [found] at updated ⊢
          split at updated
          · cases updated
          case isFalse expected =>
            rw [if_neg expected]
            rw [brings] at updated ⊢
            refine OutcomeRecord.evidence_conclude (fun o next accepted => ?_) updated
            obtain ⟨_, _, _, _, rfl⟩ := OutcomeRecord.accept_eq_ok accepted
            rfl

/-- The history of a record is only appended to exactly if no stored entry is observed anew
with other values. -/
theorem history_appendOnly_iff (stored : (r.evidence.map EvidenceRef.id).Nodup)
    (brings : op.observedEvidence = some evidence) (applied : op.apply H r = some res)
    (updated : res.kind = .updated) (fresh : res.replayed = false) :
    AppendOnly r.evidence evidence res.record.evidence ↔ Agrees r.evidence evidence := by
  obtain ⟨apart, merged⟩ := evidence_of_apply brings applied updated fresh
  rw [merged]
  exact appendOnly_iff stored apart

/-- A proof of the linked card, as it is observed at a time. -/
def proofAt (observedAt : Int) : EvidenceRef where
  id := "e"
  criterionId := "c"
  planGeneration := 1
  workRef := ⟨"card", 5, "board"⟩
  kind := .proof
  sourceId := "p"
  sourceDigest := "digest"
  observedAt

def observing : List Operation :=
  [.link 1 "c" ⟨"card", 5, "board"⟩ 1, .activate 2 2, .refresh 3 [cardProjection] [proofAt 3] 3]

theorem history_appendOnly_iff_again : ∃ r res : _,
    ((refresh 4 [cardProjection] [proofAt 3] 4).apply constantDigests r = some res ∧
      r.evidence = [proofAt 3]) ∧
    (AppendOnly r.evidence [proofAt 3] res.record.evidence ↔ Agrees r.evidence [proofAt 3]) := by
  obtain ⟨r, _, res, applied, updated, fresh, shown⟩ := Reaches.exists_of_exec
    (step constantDigests) CardOnly exampleDraft
    (P := fun r => ∃ res ∈ apply constantDigests r (.refresh 4 [cardProjection] [proofAt 3] 4),
      res.kind = .updated ∧ res.replayed = false ∧ r.evidence = [proofAt 3])
    observing (by decide) (by decide)
  refine ⟨r, res, ⟨applied, shown⟩, ?_⟩
  exact history_appendOnly_iff (by simp [shown]) rfl applied updated fresh

/-- The next refresh replaces the stored entry by one with another observation time. -/
theorem not_history_appendOnly : ∃ r res : _,
    Reaches (step constantDigests) (Observed constantDigests) exampleDraft r ∧
    (refresh 4 [cardProjection] [proofAt 4] 4).apply constantDigests r = some res ∧
    (res.kind = .updated ∧ r.evidence = [proofAt 3] ∧ res.record.evidence = [proofAt 4]) ∧
    ¬ AppendOnly r.evidence [proofAt 4] res.record.evidence := by
  obtain ⟨r, run, res, applied, updated, before, after⟩ := Reaches.exists_of_exec
    (step constantDigests) CardOnly exampleDraft
    (P := fun r => ∃ res ∈ apply constantDigests r (.refresh 4 [cardProjection] [proofAt 4] 4),
      res.kind = .updated ∧ r.evidence = [proofAt 3] ∧ res.record.evidence = [proofAt 4])
    observing (by decide) (by decide)
  refine ⟨r, res, run.mono fun _ _ => observed_of_cardOnly, applied, ⟨updated, before, after⟩, ?_⟩
  rintro ⟨kept, _⟩
  rw [before, after] at kept
  exact absurd (kept _ List.mem_cons_self) (by decide)

end Operation
end Outcomes

import OpenClaw.Lib.JsUnits
import OpenClaw.Routing.SessionKey
import OpenClaw.Shell.Argv

/-!
Rendering of an authorized command. Every candidate of a plan that is to be rewritten gives a
replacement of one span of the command, after the recorded text of the span was compared with
it; the replacements are applied from right to left if they do not overlap.
-/

namespace OpenClaw.Shell

open JsUnits
open Routing (trim)

/-- The indices of a span are numbers of any kind until they are checked. -/
structure SourceSpan where
  startIndex : ℚ
  endIndex : ℚ

structure CommandStep where
  text : Text
  span : SourceSpan
  executableSpan : SourceSpan

structure Execution where
  resolvedRealPath : Option Text := none
  resolvedPath : Option Text := none

structure CommandResolution where
  policyBlocked : Bool := false
  effectiveArgv : Option (List Text) := none
  execution : Option Execution := none
  wrapperChain : List Text := []

structure ExecCommandSegment where
  argv : List Text
  resolution : Option CommandResolution := none

inductive Transport
  | direct
  | shellWrapper
  deriving DecidableEq

inductive SatisfiedBy
  | allowlist
  | safeBins
  | inlineChain
  | safeBuiltins
  | skills
  deriving DecidableEq

structure ExecAuthorizationCandidate where
  sourceSegment : ExecCommandSegment
  sourceStep : CommandStep
  transport : Transport := .direct

inductive Dialect
  | argv
  | posixShell
  | windowsCmd
  | powershell
  deriving DecidableEq

inductive ExecAuthorizationPlan
  | ok (dialect : Dialect) (originalCommand : Text) (groups : List (List ExecAuthorizationCandidate))
  | refused (reason : String)

inductive RenderMode
  | safeBins
  | enforced
  deriving DecidableEq

structure SourceReplacement where
  startIndex : Nat
  endIndex : Nat
  text : Text

/-- The argv that is to run: with the resolved path of its executable, where there is one. -/
def resolvePlannedSegmentArgv (segment : ExecCommandSegment) : Option (List Text) :=
  if (segment.resolution.map CommandResolution.policyBlocked).getD false then none
  else
    let effective := (segment.resolution.bind CommandResolution.effectiveArgv).filter (0 < ·.length)
    let execution := segment.resolution.bind CommandResolution.execution
    let resolved := ((execution.bind Execution.resolvedRealPath).map trim <|>
      (execution.bind Execution.resolvedPath).map trim).getD []
    match effective.getD segment.argv with
    | [] => none
    | executable :: args => some ((if resolved = [] then executable else resolved) :: args)

/-- What the scan for expansions knows: a backslash in double quotes escapes any character. -/
inductive ExpansionQuoting
  | plain
  | escaped
  | single
  | double
  | doubleEscaped
  deriving DecidableEq

def asterisk : UInt16 := 0x2A
def questionMark : UInt16 := 0x3F
def openBracket : UInt16 := 0x5B
def openBrace : UInt16 := 0x7B
def tilde : UInt16 := 0x7E

/-- An escaped character may be a surrogate pair. -/
def opensPair (unit : UInt16) (rest : Text) : Bool :=
  isHighSurrogate unit && rest.head?.any isLowSurrogate

def expansionFrom : Text → ExpansionQuoting → (atWordStart : Bool) → Bool
  | [], _, _ => false
  | char :: rest, .escaped, atWordStart =>
      expansionFrom rest (if opensPair char rest then .escaped else .plain) atWordStart
  | char :: rest, .doubleEscaped, atWordStart =>
      expansionFrom rest (if opensPair char rest then .doubleEscaped else .double) atWordStart
  | char :: rest, .single, atWordStart =>
      expansionFrom rest (if char = singleQuote then .plain else .single) atWordStart
  | char :: rest, .double, atWordStart =>
      if char = backslash then expansionFrom rest .doubleEscaped atWordStart
      else expansionFrom rest (if char = doubleQuote then .plain else .double) atWordStart
  | char :: rest, .plain, atWordStart =>
      if char = backslash then expansionFrom rest .escaped atWordStart
      else if char = singleQuote then expansionFrom rest .single atWordStart
      else if char = doubleQuote then expansionFrom rest .double atWordStart
      else if isWhitespace char then expansionFrom rest .plain true
      else if char = tilde ∧ atWordStart then true
      else if char = openBrace ∨ char = asterisk ∨ char = questionMark ∨ char = openBracket then true
      else expansionFrom rest .plain false

def hasUnquotedShellExpansionSource (value : Text) : Bool := expansionFrom value .plain true

/-- The text of the arguments, behind the executable. -/
def argumentText (candidate : ExecAuthorizationCandidate) : Text :=
  let step := candidate.sourceStep
  step.text.drop ⌊max 0 (step.executableSpan.endIndex - step.span.startIndex)⌋.toNat

def hasArgumentShellExpansionSource (candidate : ExecAuthorizationCandidate) : Bool :=
  hasUnquotedShellExpansionSource (argumentText candidate)

def sliceText (text : Text) (start stop : Nat) : Text := (text.take stop).drop start

def isInteger (number : ℚ) : Bool := number.den = 1

def validateSpan (command : Text) (span : SourceSpan) (expectedText : Text) : Except String Unit :=
  if !isInteger span.startIndex ∨ !isInteger span.endIndex ∨ span.startIndex < 0 ∨
      command.length < span.endIndex ∨ span.endIndex ≤ span.startIndex then
    .error "invalid source span"
  else if sliceText command ⌊span.startIndex⌋.toNat ⌊span.endIndex⌋.toNat ≠ expectedText then
    .error "source span mismatch"
  else .ok ()

def sourceStepSlice (candidate : ExecAuthorizationCandidate) (span : SourceSpan) : Text :=
  let step := candidate.sourceStep
  let relativeStart := max 0 (span.startIndex - step.span.startIndex)
  let relativeEnd := max relativeStart (span.endIndex - step.span.startIndex)
  sliceText step.text ⌊relativeStart⌋.toNat ⌊relativeEnd⌋.toNat

/-- Safe builtins are handled by the shell itself and are not rewritten. -/
def shouldRewriteCandidate (mode : RenderMode) (satisfiedBy : Option SatisfiedBy) : Bool :=
  match mode with
  | .enforced => satisfiedBy ≠ some .safeBuiltins
  | .safeBins => satisfiedBy = some .safeBins || satisfiedBy = some .inlineChain

def hasDispatchWrapper (segment : ExecCommandSegment) : Bool :=
  0 < (segment.resolution.map fun resolution => resolution.wrapperChain.length).getD 0

/-- The replacement of a span, once the recorded text was found there. -/
def replaceSpan (command : Text) (span : SourceSpan) (expectedText text : Text) :
    Except String (Option SourceReplacement) := do
  validateSpan command span expectedText
  pure (some { startIndex := ⌊span.startIndex⌋.toNat, endIndex := ⌊span.endIndex⌋.toNat, text })

def replacementForCandidate (command : Text) (mode : RenderMode)
    (candidate : ExecAuthorizationCandidate) (satisfiedBy : Option SatisfiedBy) :
    Except String (Option SourceReplacement) :=
  if mode = .enforced ∧ hasArgumentShellExpansionSource candidate then
    .error "shell expansion in enforced arguments"
  else if !shouldRewriteCandidate mode satisfiedBy then .ok none
  else
    match resolvePlannedSegmentArgv candidate.sourceSegment with
    | none => .error "segment execution plan unavailable"
    | some plannedArgv =>
        if satisfiedBy = some .safeBins ∧ hasArgumentShellExpansionSource candidate then
          .error "shell expansion in safe-bin arguments"
        else if mode = .enforced ∧ candidate.transport = .shellWrapper then
          .error "shell quoting required in wrapper payload"
        else if hasDispatchWrapper candidate.sourceSegment then
          replaceSpan command candidate.sourceStep.span candidate.sourceStep.text
            (renderSourcePreservingArgv plannedArgv)
        else
          let executable := plannedArgv.headD []
          if executable = [] then .error "segment execution plan unavailable"
          else if satisfiedBy = some .safeBins ∧ candidate.transport = .shellWrapper ∧
              renderBareShellToken executable ≠ executable then
            .error "shell quoting required in wrapper payload"
          else
            replaceSpan command candidate.sourceStep.executableSpan
              (sourceStepSlice candidate candidate.sourceStep.executableSpan)
              (renderBareShellToken executable)

def collectCandidateReplacements (command : Text) (mode : RenderMode) :
    List (ExecAuthorizationCandidate × Option SatisfiedBy) → Except String (List SourceReplacement)
  | [] => .ok []
  | entry :: rest => do
      let replacement ← replacementForCandidate command mode entry.1 entry.2
      let replacements ← collectCandidateReplacements command mode rest
      pure (replacement.toList ++ replacements)

def hasOverlap : (previousEnd : Int) → List SourceReplacement → Bool
  | _, [] => false
  | previousEnd, replacement :: rest =>
      replacement.startIndex < previousEnd || hasOverlap replacement.endIndex rest

def applyReplacement (command : Text) (replacement : SourceReplacement) : Text :=
  command.take replacement.startIndex ++ replacement.text ++ command.drop replacement.endIndex

def sortReplacements (replacements : List SourceReplacement) : List SourceReplacement :=
  replacements.mergeSort fun left right => left.startIndex ≤ right.startIndex

def applyReplacements (command : Text) (replacements : List SourceReplacement) :
    Except String Text :=
  let sorted := sortReplacements replacements
  if hasOverlap (-1) sorted then .error "overlapping replacement ranges"
  else .ok (sorted.reverse.foldl applyReplacement command)

def buildAuthorizedShellCommandFromPlan (plan : ExecAuthorizationPlan) (mode : RenderMode)
    (segmentSatisfiedBy : Option (List (Option SatisfiedBy))) : Except String Text :=
  match plan with
  | .refused reason => .error reason
  | .ok dialect originalCommand groups =>
      if dialect ≠ .posixShell then .error "unsupported command dialect"
      else
        let candidates := groups.flatten
        let segmentSatisfiedBy := segmentSatisfiedBy.getD []
        if segmentSatisfiedBy.length ≠ candidates.length then .error "segment metadata mismatch"
        else do
          let replacements ← collectCandidateReplacements originalCommand mode
            (candidates.zip segmentSatisfiedBy)
          applyReplacements originalCommand replacements

end OpenClaw.Shell

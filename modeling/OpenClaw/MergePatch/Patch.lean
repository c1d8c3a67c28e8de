import OpenClaw.Lib.JsCollections
import OpenClaw.Lib.JsValue

/-!
Merge patches of config values. A patch tells what is new in a target; applied to a value it
changes members, deletes those it has as null, and replaces everything else. Arrays whose
entries all have an id are merged entry by entry where the caller asks for it.
-/

namespace OpenClaw.MergePatch

open JsUnits JsMembers

variable {ν : Type}

abbrev Members (ν : Type) := List (Text × JsValue ν)

def blockedObjectKeys : List Text := [lit "__proto__", lit "prototype", lit "constructor"]

def isBlockedObjectKey (key : Text) : Bool := blockedObjectKeys.contains key

/-- At the root there is no parent path, which counts as an empty one. -/
def formatConfigPatchPath (parentPath key : Text) : Text :=
  if parentPath = [] then key else parentPath ++ lit "." ++ key

def isMergePatchObjectKeyAllowed (key parentPath : Text) : Bool :=
  !isBlockedObjectKey key ||
    parentPath = lit "browser.profiles" && (key = lit "constructor" || key = lit "prototype")

section Create

variable [DecidableEq ν]

/-- Assigning to `__proto__` makes no member. -/
def ownMembers (members : Members ν) : Members ν :=
  members.filter fun member => decide (member.1 ≠ lit "__proto__")

def isEmptyObject (value : JsValue ν) : Bool := value.isObject && value.members.isEmpty

def added (base target : Members ν) : Members ν :=
  target.filter fun member => (get? base member.1).isNone

mutual

/-- The keys of the base come first, then those that only the target has. -/
def createMergePatch : JsValue ν → JsValue ν → JsValue ν
  | .object base, .object target => .object (ownMembers (changed target base ++ added base target))
  | _, target => target

def changed (target : Members ν) : Members ν → Members ν
  | [] => []
  | (key, baseValue) :: rest =>
      match get? target key with
      | none => (key, .null) :: changed target rest
      | some targetValue =>
          if baseValue.isObject && targetValue.isObject then
            let childPatch := createMergePatch baseValue targetValue
            if isEmptyObject childPatch then changed target rest
            else (key, childPatch) :: changed target rest
          else if baseValue.isDeepStrictEqual targetValue then changed target rest
          else (key, targetValue) :: changed target rest

end
end Create

structure MergePatchOptions where
  mergeObjectArraysById : Bool
  replaceArrayPaths : List Text

/-- The id that an entry is known by, where it has one. -/
def stringId? (value : JsValue ν) : Option Text :=
  match get? value.members (lit "id") with
  | some (.string id) => if id = [] then none else some id
  | _ => none

def isObjectWithStringId (value : JsValue ν) : Bool := (stringId? value).isSome

def formatMergePatchArrayEntryPath (arrayPath : Text) : Text := arrayPath ++ lit "[]"

/-- The index of the last entry with each id. -/
def indexById (base : List (JsValue ν)) : JsMap Text Nat :=
  base.zipIdx.foldl (fun index entry =>
    match stringId? entry.1 with
    | some id => index.set id entry.2
    | none => index) .empty

/-- The arrays that are merged and not replaced. -/
def mergesArray (options : MergePatchOptions) (path : Text) (base : List (JsValue ν)) : Bool :=
  options.mergeObjectArraysById && !options.replaceArrayPaths.contains path &&
    base.all isObjectWithStringId

def putMember (key : Text) (result : Members ν) : Option (JsValue ν) → Members ν
  | some value => set key value result
  | none => delete result key

mutual

def applyMergePatch (options : MergePatchOptions) (path : Text) (base : JsValue ν) :
    JsValue ν → JsValue ν
  | .object patch => .object (applyMembers options path base.members patch)
  | patch => patch

def applyMembers (options : MergePatchOptions) (path : Text) (result : Members ν) :
    Members ν → Members ν
  | [] => result
  | (key, value) :: rest =>
      let next :=
        if isMergePatchObjectKeyAllowed key path then
          putMember key result
            (applyMember options (formatConfigPatchPath path key) (get? result key) value)
        else result
      applyMembers options path next rest

/-- What becomes of a member of the result; null deletes it. -/
def applyMember (options : MergePatchOptions) (path : Text) (current : Option (JsValue ν)) :
    JsValue ν → Option (JsValue ν)
  | .null => none
  | .array items =>
      match current with
      | some (.array base) =>
          if mergesArray options path base then
            some (.array (mergeObjectArraysById options path base (indexById base) items))
          else some (.array items)
      | _ => some (.array items)
  | .object patch =>
      some (.object (applyMembers options path ((current.map JsValue.members).getD []) patch))
  | value => some value

/-- The entries merged so far, and where each id is among them. -/
def mergeObjectArraysById (options : MergePatchOptions) (arrayPath : Text)
    (merged : List (JsValue ν)) (indexById : JsMap Text Nat) : List (JsValue ν) → List (JsValue ν)
  | [] => merged
  | patchEntry :: rest =>
      match stringId? patchEntry with
      | none => mergeObjectArraysById options arrayPath (merged ++ [patchEntry]) indexById rest
      | some id =>
          match indexById.get? id with
          | none =>
              mergeObjectArraysById options arrayPath (merged ++ [patchEntry])
                (indexById.set id merged.length) rest
          | some existingIndex =>
              mergeObjectArraysById options arrayPath
                (merged.modify existingIndex fun entry =>
                  applyMergePatch options (formatMergePatchArrayEntryPath arrayPath) entry patchEntry)
                indexById rest

end

/-- The call without options. -/
def plain : MergePatchOptions := { mergeObjectArraysById := false, replaceArrayPaths := [] }

/-- A member that the patch has as an object is patched by itself. -/
theorem applyMember_object (options : MergePatchOptions) (path : Text)
    (current : Option (JsValue ν)) (patch : Members ν) :
    applyMember options path current (.object patch) =
      some (applyMergePatch options path (current.getD .null) (.object patch)) := by
  rw [applyMember, applyMergePatch]
  cases current <;> rfl

/-- Everything but an object replaces the base. -/
theorem applyMergePatch_replaces {options : MergePatchOptions} {path : Text}
    {base value : JsValue ν} (other : value.isObject = false) :
    applyMergePatch options path base value = value := by
  rw [applyMergePatch]
  rintro patch rfl
  cases other

section Lookup

variable {options : MergePatchOptions} {path key : Text} {result patch : Members ν}

theorem get?_putMember {name : Text} {value : Option (JsValue ν)} :
    get? (putMember name result value) key = if key = name then value else get? result key := by
  cases value with
  | none => exact get?_delete
  | some value => exact get?_set

/-- Each member of a patch concerns the member of that name only. -/
theorem get?_applyMembers (nodup : (patch.map Prod.fst).Nodup) :
    get? (applyMembers options path result patch) key =
      match get? patch key with
      | none => get? result key
      | some value =>
          if isMergePatchObjectKeyAllowed key path then
            applyMember options (formatConfigPatchPath path key) (get? result key) value
          else get? result key := by
  induction patch generalizing result with
  | nil => rw [applyMembers]; rfl
  | cons entry rest ih =>
      obtain ⟨name, value⟩ := entry
      rw [List.map_cons, List.nodup_cons] at nodup
      have next : get? (if isMergePatchObjectKeyAllowed name path then
            putMember name result
              (applyMember options (formatConfigPatchPath path name) (get? result name) value)
          else result) key =
          if key = name then
            (if isMergePatchObjectKeyAllowed name path then
              applyMember options (formatConfigPatchPath path name) (get? result name) value
            else get? result name)
          else get? result key := by
        split
        · exact get?_putMember
        · split
          case isTrue same => rw [same]
          case isFalse => rfl
      rw [applyMembers, ih nodup.2, get?_cons, next]
      by_cases same : name = key
      · subst same
        rw [get?_eq_none.mpr nodup.1, if_pos rfl, if_pos rfl]
      · rw [if_neg same, if_neg (Ne.symm same)]

theorem nodup_applyMembers (nodup : (result.map Prod.fst).Nodup) :
    ((applyMembers options path result patch).map Prod.fst).Nodup := by
  induction patch generalizing result with
  | nil => rwa [applyMembers]
  | cons entry rest ih =>
      obtain ⟨name, value⟩ := entry
      rw [applyMembers]
      refine ih ?_
      split
      · cases applyMember options (formatConfigPatchPath path name) (get? result name) value with
        | none => exact nodup_delete nodup
        | some value => exact nodup_set nodup
      · exact nodup

end Lookup

end OpenClaw.MergePatch

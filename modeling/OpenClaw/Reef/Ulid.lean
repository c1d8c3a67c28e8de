import OpenClaw.Lib.Fallible
import OpenClaw.Lib.FixedDigits
import OpenClaw.Lib.JsNumber
import OpenClaw.Lib.JsUnits
import OpenClaw.Lib.Transition

/-!
Message ids: ten digits of the clock and sixteen of randomness, which is counted up while the
clock does not advance. The increment works in place, so an overflow throws after all bytes
have become zero, and the next id of that reading is smaller than the one before.
-/

namespace OpenClaw.Reef

open JsUnits
open FixedDigits (value)

variable {bytes front back : List UInt8} {n v : Nat}

/-- `CROCKFORD`. -/
def crockford : Text :=
  [0x30, 0x31, 0x32, 0x33, 0x34, 0x35, 0x36, 0x37, 0x38, 0x39, 0x41, 0x42, 0x43, 0x44, 0x45, 0x46,
    0x47, 0x48, 0x4A, 0x4B, 0x4D, 0x4E, 0x50, 0x51, 0x52, 0x53, 0x54, 0x56, 0x57, 0x58, 0x59, 0x5A]

def crockfordDigit (bits : Nat) : UInt16 := crockford.getD bits 0

/-- The loop of both encoders: the low five bits become the next character in front. -/
def encodeDigits : Nat → Nat → Text → Text
  | 0, _, output => output
  | n + 1, value, output => encodeDigits n (value >>> 5) (crockfordDigit (value &&& 31) :: output)

def encodeTime (time : Nat) : Text := encodeDigits 10 time []

def encodeRandom (bytes : List UInt8) : Text :=
  encodeDigits 16 (bytes.foldl (fun value byte => value <<< 8 ||| byte.toNat) 0) []

/-- The loop of `increment`; the bytes from `index` on are done. -/
def incrementFrom : Nat → List UInt8 → List UInt8 × Except String Unit
  | 0, value => (value, .error "ULID monotonic overflow")
  | index + 1, value =>
      let byte := value.getD index 0 + 1
      if byte ≠ 0 then (value.set index byte, .ok ())
      else incrementFrom index (value.set index byte)

def increment (value : List UInt8) : List UInt8 × Except String Unit :=
  incrementFrom value.length value

structure Generator where
  lastTime : Int
  randomness : List UInt8
  deriving DecidableEq

def createMonotonicUlidFactory : Generator :=
  { lastTime := -1, randomness := List.replicate 10 0 }

/-- What the clock and the random source answer in one call; either may throw. -/
structure Call where
  clock : Except String JsNumber
  rng : Except String (List UInt8)

/-- `Number.MAX_SAFE_INTEGER`. -/
def maxSafeInteger : Int := 9007199254740991

/-- `Math.floor(clock())`, if it is a valid clock reading. -/
def Call.now (call : Call) : Except String Int :=
  call.clock.bind fun
    | .real reading =>
        let now := ⌊reading⌋
        if ¬(-maxSafeInteger ≤ now ∧ now ≤ maxSafeInteger) ∨ now < 0 ∨ 0xffffffffffff < now then
          .error "invalid ULID clock"
        else .ok now
    | _ => .error "invalid ULID clock"

def Generator.id (generator : Generator) : Text :=
  encodeTime generator.lastTime.toNat ++ encodeRandom generator.randomness

/-- One call of the generator. -/
def Generator.next (generator : Generator) (call : Call) : Generator × Except String Text :=
  match call.now with
  | .error thrown => (generator, .error thrown)
  | .ok now =>
      if generator.lastTime < now then
        match call.rng with
        | .error thrown => (generator, .error thrown)
        | .ok generated =>
            if generated.length ≠ 10 then (generator, .error "invalid ULID rng")
            else
              let advanced : Generator := { lastTime := now, randomness := generated }
              (advanced, .ok advanced.id)
      else
        let counted : Generator := { generator with randomness := (increment generator.randomness).1 }
        (counted, (increment generator.randomness).2.map fun _ => counted.id)

/-- The class `[0-9A-HJKMNP-TV-Z]`. -/
def isUlidDigit (unit : UInt16) : Bool :=
  let n := unit.toNat
  (0x30 ≤ n && n ≤ 0x39) || (0x41 ≤ n && n ≤ 0x48) || n == 0x4A || n == 0x4B || n == 0x4D ||
    n == 0x4E || (0x50 ≤ n && n ≤ 0x54) || (0x56 ≤ n && n ≤ 0x5A)

/-- `ULID_PATTERN`. -/
def matchesUlid : Text → Bool
  | [] => false
  | first :: rest =>
      (0x30 ≤ first.toNat && first.toNat ≤ 0x37) && rest.length == 25 && rest.all isUlidDigit

/-- The clock reading that the first ten characters of an id spell. -/
def decodeTime (id : Text) : Nat :=
  (id.take 10).foldl (fun value character => value * 32 + crockford.idxOf character) 0

/-- A generator and the ids it has returned, each with its clock reading. -/
structure Session where
  generator : Generator
  returned : List (Int × Text)

def Session.start : Session := { generator := createMonotonicUlidFactory, returned := [] }

def Session.step (session : Session) (call : Call) : Option Session :=
  let (generator, outcome) := session.generator.next call
  match call.now, outcome with
  | .ok now, .ok id => some { generator, returned := session.returned ++ [(now, id)] }
  | _, _ => some { session with generator }

/-- What is expected of the ids of one generator. -/
structure Issued (returned : List (Int × Text)) : Prop where
  valid : ∀ entry ∈ returned, matchesUlid entry.2 = true
  increasing : (returned.map Prod.snd).Pairwise (· < ·)
  distinct : (returned.map Prod.snd).Nodup
  time : ∀ before entry after, returned = before ++ entry :: after →
    IsGreatest {now | now ∈ (before ++ [entry]).map Prod.fst} (decodeTime entry.2 : Int)

/-- The call finds the randomness used up for the time it has to stay at. -/
def Overflows (session : Session) (call : Call) : Prop :=
  ∃ now ∈ call.now.toOption, now ≤ session.generator.lastTime ∧
    ∀ byte ∈ session.generator.randomness, byte = 0xff

instance (session : Session) (call : Call) : Decidable (Overflows session call) :=
  inferInstanceAs (Decidable (∃ now ∈ call.now.toOption, _ ∧ _))

theorem crockfordDigit_lt : ∀ d < 32, ∀ e < d, crockfordDigit e < crockfordDigit d := by decide

theorem idxOf_crockfordDigit (below : n < 32) : crockford.idxOf (crockfordDigit n) = n := by
  revert n
  decide

theorem isUlidDigit_crockfordDigit (below : n < 32) : isUlidDigit (crockfordDigit n) = true := by
  revert n
  decide

theorem encodeDigits_eq (n v : Nat) (output : Text) :
    encodeDigits n v output = (FixedDigits.digits 32 n v).map crockfordDigit ++ output := by
  induction n generalizing v output with
  | zero => rfl
  | succ n ih =>
      have low : v &&& 31 = v % 32 := Nat.and_two_pow_sub_one_eq_mod v 5
      rw [encodeDigits, ih, low, Nat.shiftRight_eq_div_pow, FixedDigits.digits, List.map_append,
        List.append_assoc]
      rfl

/-- The number that bytes spell, the first byte being the most significant. -/
def bigEndian (bytes : List UInt8) : Nat := value 256 (bytes.map UInt8.toNat)

theorem bigEndian_concat (front : List UInt8) (byte : UInt8) :
    bigEndian (front ++ [byte]) = bigEndian front * 256 + byte.toNat := by
  rw [bigEndian, List.map_append, List.map_singleton, FixedDigits.value_concat, ← bigEndian]

theorem bigEndian_lt (bytes : List UInt8) : bigEndian bytes < 256 ^ bytes.length := by
  have below : ∀ d ∈ bytes.map UInt8.toNat, d < 256 := by
    intro d mem
    obtain ⟨byte, -, rfl⟩ := List.mem_map.mp mem
    exact byte.toNat_lt
  have bound := FixedDigits.value_lt (by decide) below
  rwa [List.length_map] at bound

theorem foldl_eq_bigEndian (bytes : List UInt8) :
    bytes.foldl (fun value byte => value <<< 8 ||| byte.toNat) 0 = bigEndian bytes := by
  induction bytes using List.reverseRecOn with
  | nil => rfl
  | append_singleton front byte ih =>
      rw [List.foldl_concat, ih, ← Nat.shiftLeft_add_eq_or_of_lt byte.toNat_lt, Nat.shiftLeft_eq,
        bigEndian_concat]

theorem incrementFrom_spec (spare : ¬∀ byte ∈ front, byte = 0xff) :
    ∃ counted, incrementFrom front.length (front ++ back) = (counted ++ back, .ok ()) ∧
      counted.length = front.length ∧ bigEndian counted = bigEndian front + 1 := by
  induction front using List.reverseRecOn generalizing back with
  | nil => exact absurd (fun _ mem => nomatch mem) spare
  | append_singleton front byte ih =>
      have here : (front ++ [byte] ++ back).getD front.length 0 = byte := by simp
      have replaced (next : UInt8) :
          (front ++ [byte] ++ back).set front.length next = front ++ next :: back := by simp
      rw [List.length_append, List.length_singleton, incrementFrom, here]
      simp only [replaced, bigEndian_concat]
      by_cases carried : byte + 1 = 0
      · -- the byte was the greatest one: it is zero now, and the bytes in front are counted up
        have full : byte = 0xff := by grind
        have rest : ¬∀ byte ∈ front, byte = 0xff := fun all => spare fun b mem =>
          (List.mem_append.mp mem).elim (all b) fun last => (List.mem_singleton.mp last).trans full
        obtain ⟨counted, done, length, counts⟩ := @ih (0 :: back) rest
        refine ⟨counted ++ [0], ?_, by simp [length], ?_⟩
        · rw [if_neg (not_not_intro carried), carried, done, List.append_assoc]
          rfl
        · have zero : (0 : UInt8).toNat = 0 := rfl
          have greatest : (0xff : UInt8).toNat = 255 := rfl
          rw [bigEndian_concat, counts, full, zero, greatest]
          omega
      · have next : (byte + 1).toNat = byte.toNat + 1 := by
          have := byte.toNat_lt
          have : byte.toNat ≠ 255 := fun full => carried (by
            rw [← UInt8.toNat_inj, UInt8.toNat_add, full]
            rfl)
          rw [UInt8.toNat_add, UInt8.toNat_one]
          omega
        refine ⟨front ++ [byte + 1], ?_, by simp, ?_⟩
        · rw [if_pos carried, List.append_assoc]
          rfl
        · rw [bigEndian_concat, next, Nat.add_assoc]

theorem increment_spec (spare : ¬∀ byte ∈ bytes, byte = 0xff) :
    ∃ counted, increment bytes = (counted, .ok ()) ∧ counted.length = bytes.length ∧
      bigEndian counted = bigEndian bytes + 1 := by
  simpa [increment] using @incrementFrom_spec bytes [] spare

/-- The number that an id of the generator spells. -/
def Generator.stamp (generator : Generator) : Nat :=
  generator.lastTime.toNat * 32 ^ 16 + bigEndian generator.randomness

theorem Generator.id_eq {generator : Generator} (length : generator.randomness.length = 10) :
    generator.id = (FixedDigits.digits 32 26 generator.stamp).map crockfordDigit := by
  have below := bigEndian_lt generator.randomness
  rw [length, show 256 ^ 10 = 32 ^ 16 from rfl] at below
  rw [Generator.id, encodeTime, encodeRandom, foldl_eq_bigEndian, encodeDigits_eq, encodeDigits_eq,
    List.append_nil, List.append_nil, ← List.map_append, Generator.stamp,
    ← FixedDigits.digits_append (by decide) 10 below]

theorem matchesUlid_digits {v : Nat} (below : v < 2 ^ 128) :
    matchesUlid ((FixedDigits.digits 32 26 v).map crockfordDigit) = true := by
  have lead : v / 32 ^ 25 < 8 := Nat.div_lt_of_lt_mul (by omega)
  have first : ∀ d < 8, (0x30 ≤ (crockfordDigit d).toNat && (crockfordDigit d).toNat ≤ 0x37) = true := by
    decide
  have split : FixedDigits.digits 32 26 v =
      (v / 32 ^ 25) :: FixedDigits.digits 32 25 (v % 32 ^ 25) := by
    conv_lhs => rw [← Nat.div_add_mod' v (32 ^ 25)]
    rw [show 26 = 1 + 25 from rfl,
      FixedDigits.digits_append (by decide) 1 (Nat.mod_lt _ (by decide))]
    simp only [FixedDigits.digits, List.nil_append, List.singleton_append,
      Nat.mod_eq_of_lt (lead.trans (by decide : 8 < 32))]
  have rest :
      ((FixedDigits.digits 32 25 (v % 32 ^ 25)).map crockfordDigit).all isUlidDigit = true := by
    rw [List.all_map, List.all_eq_true]
    exact fun d mem => isUlidDigit_crockfordDigit (FixedDigits.digits_lt (by decide) _ _ d mem)
  rw [split, List.map_cons, matchesUlid, first _ lead, rest, List.length_map,
    FixedDigits.length_digits]
  rfl

theorem decodeTime_id {generator : Generator} (range : generator.lastTime < 2 ^ 48) :
    decodeTime generator.id = generator.lastTime.toNat := by
  have below : generator.lastTime.toNat < 32 ^ 10 := by omega
  have front : generator.id.take 10 =
      (FixedDigits.digits 32 10 generator.lastTime.toNat).map crockfordDigit := by
    rw [Generator.id, encodeTime, encodeDigits_eq, List.append_nil]
    exact List.take_left' (by rw [List.length_map, FixedDigits.length_digits])
  calc decodeTime generator.id
      = (FixedDigits.digits 32 10 generator.lastTime.toNat).foldl
          (fun value d => value * 32 + crockford.idxOf (crockfordDigit d)) 0 := by
        rw [decodeTime, front, List.foldl_map]
    _ = (FixedDigits.digits 32 10 generator.lastTime.toNat).foldl
          (fun value d => value * 32 + d) 0 :=
        List.foldl_ext _ _ _ fun value d mem => by
          rw [idxOf_crockfordDigit (FixedDigits.digits_lt (by decide) _ _ d mem)]
    _ = generator.lastTime.toNat := by
        rw [FixedDigits.foldl_eq_value, FixedDigits.value_digits below]

/-- What a call does that does not run out of randomness: it throws and changes nothing, or it
returns the id of its new state, whose stamp has grown. -/
theorem Generator.next_cases {session : Session} {call : Call}
    (spare : ¬Overflows session call) :
    (∃ thrown, session.generator.next call = (session.generator, .error thrown)) ∨
    ∃ now generator, call.now = .ok now ∧
      session.generator.next call = (generator, .ok generator.id) ∧
      (session.generator.lastTime < now ∧ generator.lastTime = now ∧
          generator.randomness.length = 10 ∨
        now ≤ session.generator.lastTime ∧
          generator.lastTime = session.generator.lastTime ∧
          generator.randomness.length = session.generator.randomness.length ∧
          bigEndian generator.randomness = bigEndian session.generator.randomness + 1) := by
  cases read : call.now with
  | error thrown => exact Or.inl ⟨thrown, by rw [Generator.next, read]⟩
  | ok now =>
      by_cases later : session.generator.lastTime < now
      · cases random : call.rng with
        | error thrown =>
            refine Or.inl ⟨thrown, ?_⟩
            rw [Generator.next, read]
            simp only [if_pos later, random]
        | ok generated =>
            by_cases length : generated.length = 10
            · refine Or.inr ⟨now, ⟨now, generated⟩, rfl, ?_, Or.inl ⟨later, rfl, length⟩⟩
              rw [Generator.next, read]
              simp only [if_pos later, random, if_neg (not_not_intro length)]
            · refine Or.inl ⟨"invalid ULID rng", ?_⟩
              rw [Generator.next, read]
              simp only [if_pos later, random, if_pos length]
      · have held : now ≤ session.generator.lastTime := not_lt.mp later
        obtain ⟨counted, done, length, counts⟩ :=
          increment_spec fun full => spare ⟨now, by rw [read]; rfl, held, full⟩
        refine Or.inr ⟨now, ⟨session.generator.lastTime, counted⟩, rfl, ?_,
          Or.inr ⟨held, rfl, length, counts⟩⟩
        rw [Generator.next, read]
        simp only [if_neg later, done]
        rfl

theorem Call.now_range {call : Call} {now : Int} (read : call.now = .ok now) :
    0 ≤ now ∧ now < 2 ^ 48 := by
  obtain ⟨reading, -, accepted⟩ := Fallible.bind_eq_ok.mp read
  cases reading with
  | real reading =>
      simp only at accepted
      by_cases invalid : ¬(-maxSafeInteger ≤ ⌊reading⌋ ∧ ⌊reading⌋ ≤ maxSafeInteger) ∨
          ⌊reading⌋ < 0 ∨ 0xffffffffffff < ⌊reading⌋
      · rw [if_pos invalid] at accepted
        nomatch accepted
      · rw [if_neg invalid] at accepted
        cases accepted
        omega
  | nan | negInf | posInf => nomatch accepted

/-- What holds between the state of the generator and the ids it has returned. -/
structure Session.Sound (session : Session) : Prop where
  length : session.generator.randomness.length = 10
  bound : session.generator.lastTime < 2 ^ 48
  fresh : session.generator.lastTime < 0 → session.returned = []
  past : ∀ entry ∈ session.returned, entry.1 ≤ session.generator.lastTime ∧
    ∃ stamp ≤ session.generator.stamp,
      entry.2 = (FixedDigits.digits 32 26 stamp).map crockfordDigit
  reached : 0 ≤ session.generator.lastTime →
    session.generator.lastTime ∈ session.returned.map Prod.fst
  issued : Issued session.returned

theorem Session.sound_start : Session.start.Sound where
  length := rfl
  bound := by decide
  fresh _ := rfl
  past _ mem := nomatch mem
  reached nonneg := absurd nonneg (by decide)
  issued :=
    { valid := fun _ mem => nomatch mem
      increasing := .nil
      distinct := .nil
      time := fun before entry after same => absurd same (by simp [Session.start]) }

theorem ne_of_text_lt {left right : Text} (less : left < right) : left ≠ right := by
  rintro rfl
  exact List.lt_irrefl _ less

/-- An id that is added at the end: it is greater than all before it. -/
theorem Issued.concat {returned : List (Int × Text)} {entry : Int × Text} (issued : Issued returned)
    (matched : matchesUlid entry.2 = true) (above : ∀ earlier ∈ returned, earlier.2 < entry.2)
    (time : IsGreatest {now | now ∈ (returned ++ [entry]).map Prod.fst} (decodeTime entry.2 : Int)) :
    Issued (returned ++ [entry]) := by
  have increasing : ((returned ++ [entry]).map Prod.snd).Pairwise (· < ·) := by
    rw [List.map_append, List.pairwise_append]
    refine ⟨issued.increasing, List.pairwise_singleton _ _, ?_⟩
    intro id known other last
    obtain ⟨earlier, mem, rfl⟩ := List.mem_map.mp known
    rw [List.map_singleton, List.mem_singleton] at last
    rw [last]
    exact above earlier mem
  refine ⟨?_, increasing, increasing.imp ne_of_text_lt, ?_⟩
  · intro other mem
    rcases List.mem_append.mp mem with mem | mem
    · exact issued.valid other mem
    · rwa [List.mem_singleton.mp mem]
  · intro before other after same
    rcases List.eq_nil_or_concat after with rfl | ⟨after, last, rfl⟩
    · obtain ⟨rfl, heads⟩ := List.append_inj' same rfl
      cases heads
      exact time
    · rw [List.concat_eq_append, ← List.cons_append, ← List.append_assoc] at same
      exact issued.time before other after (List.append_inj' same rfl).1

theorem Generator.stamp_lt {generator : Generator} (length : generator.randomness.length = 10)
    (bound : generator.lastTime < 2 ^ 48) : generator.stamp < 2 ^ 128 := by
  have below := bigEndian_lt generator.randomness
  rw [length] at below
  rw [Generator.stamp]
  omega

/-- One call that returns an id, or throws without running out of randomness. -/
theorem Session.Sound.step {session after : Session} {call : Call} (sound : session.Sound)
    (spare : ¬Overflows session call) (taken : session.step call = some after) : after.Sound := by
  rcases Generator.next_cases spare with ⟨thrown, failed⟩ | ⟨now, generator, read, done, moved⟩
  · have same : session.step call = some session := by
      rw [Session.step, failed]
      cases call.now <;> rfl
    rw [same, Option.some.injEq] at taken
    exact taken ▸ sound
  · have next : session.step call = some ⟨generator, session.returned ++ [(now, generator.id)]⟩ := by
      rw [Session.step, done, read]
    rw [next, Option.some.injEq] at taken
    subst taken
    obtain ⟨nonneg, small⟩ := Call.now_range read
    have old := bigEndian_lt session.generator.randomness
    rw [sound.length] at old
    have length : generator.randomness.length = 10 := by
      rcases moved with ⟨-, -, length⟩ | ⟨-, -, length, -⟩
      · exact length
      · exact length.trans sound.length
    have bound : generator.lastTime < 2 ^ 48 := by
      have := sound.bound
      rcases moved with ⟨later, same, -⟩ | ⟨held, same, -⟩ <;> omega
    have kept : session.generator.lastTime ≤ generator.lastTime ∧ now ≤ generator.lastTime := by
      rcases moved with ⟨later, same, -⟩ | ⟨held, same, -⟩ <;> omega
    have grown : 0 ≤ session.generator.lastTime → session.generator.stamp < generator.stamp := by
      intro started
      rw [Generator.stamp, Generator.stamp]
      rcases moved with ⟨later, same, -⟩ | ⟨-, same, -, counts⟩
      · have : session.generator.lastTime.toNat + 1 ≤ generator.lastTime.toNat := by omega
        omega
      · rw [same, counts]
        omega
    have last : generator.lastTime ∈
        (session.returned ++ [(now, generator.id)]).map Prod.fst := by
      rw [List.map_append, List.mem_append]
      rcases moved with ⟨-, same, -⟩ | ⟨held, same, -⟩
      · exact Or.inr (by simp [same])
      · rw [same]
        exact Or.inl (sound.reached (nonneg.trans held))
    have before : ∀ entry ∈ session.returned, entry.1 ≤ generator.lastTime ∧
        ∃ stamp < generator.stamp,
          entry.2 = (FixedDigits.digits 32 26 stamp).map crockfordDigit := by
      intro entry mem
      have started : 0 ≤ session.generator.lastTime := by
        by_contra fresh
        rw [sound.fresh (not_le.mp fresh)] at mem
        nomatch mem
      obtain ⟨time, stamp, atMost, spelled⟩ := sound.past entry mem
      exact ⟨time.trans kept.1, stamp, atMost.trans_lt (grown started), spelled⟩
    have spelled := Generator.id_eq length
    have range := Generator.stamp_lt length bound
    have time : (decodeTime generator.id : Int) = generator.lastTime := by
      rw [decodeTime_id bound]
      omega
    refine ⟨length, bound, fun fresh => absurd (nonneg.trans kept.2) (not_le.mpr fresh), ?_,
      fun _ => last, ?_⟩
    · intro entry mem
      rcases List.mem_append.mp mem with mem | mem
      · obtain ⟨time, stamp, less, spelled⟩ := before entry mem
        exact ⟨time, stamp, less.le, spelled⟩
      · rw [List.mem_singleton.mp mem]
        exact ⟨kept.2, generator.stamp, le_rfl, spelled⟩
    · refine sound.issued.concat ?_ ?_ ?_
      · simp only [spelled]
        exact matchesUlid_digits range
      · intro entry mem
        obtain ⟨-, stamp, less, same⟩ := before entry mem
        simp only [same, spelled]
        exact FixedDigits.map_lt_map crockfordDigit_lt (FixedDigits.digits_lt (by decide) _ _)
          (FixedDigits.digits_lt (by decide) _ _)
          (FixedDigits.digits_lt_digits (by decide) (range.trans (by decide)) less)
      · simp only [time]
        refine ⟨last, ?_⟩
        intro earlier known
        obtain ⟨entry, mem, rfl⟩ := List.mem_map.mp known
        rcases List.mem_append.mp mem with mem | mem
        · exact (before entry mem).1
        · rw [List.mem_singleton.mp mem]
          exact kept.2

/-- Ids in every run in which no call runs out of randomness. -/
theorem ulids_issued {session : Session} (run : Transition.Reaches Session.step
    (fun session call => ¬Overflows session call) Session.start session) :
    Issued session.returned :=
  (run.invariant Session.sound_start fun _ _ _ sound spare taken => sound.step spare taken).issued

/-- A call at the first millisecond, with every random byte the same. -/
def Call.at (byte : UInt8) : Call :=
  { clock := .ok (.real 1), rng := .ok (List.replicate 10 byte) }

/-- The second call throws; the third returns an id below the first. -/
theorem ulids_decrease : ∃ session,
    Transition.Reaches Session.step Transition.Any Session.start session ∧
      ¬Issued session.returned := by
  obtain ⟨session, run, falling⟩ := Transition.Reaches.exists_of_exec Session.step Transition.Any
    Session.start (P := fun session => ¬(session.returned.map Prod.snd).Pairwise (· < ·))
    (List.replicate 3 (Call.at 0xff)) (by decide +kernel) (by decide +kernel)
  exact ⟨session, run, fun issued => falling issued.increasing⟩

theorem ulids_issued_twice : ∃ session : Session,
    Issued session.returned ∧ session.returned.length = 2 := by
  obtain ⟨session, run, twice⟩ := Transition.Reaches.exists_of_exec Session.step
    (fun session call => ¬Overflows session call) Session.start
    (P := fun session => session.returned.length = 2)
    (List.replicate 2 (Call.at 0)) (by decide +kernel) (by decide +kernel)
  exact ⟨session, ulids_issued run, twice⟩

end OpenClaw.Reef

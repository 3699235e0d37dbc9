/-
# What a server says as it refuses the bot (`irc_client.rs`)

The text of a 465 or an ERROR is read for words that tell a ban from throttling, and for a length.
It comes from the server, and the build aborts where an addition or a multiplication overflows.

* `refusalParseDuration_bounded` — a length is read out of any text without an overflow, and none is
  longer than the cap.
* `refusalBackoff_eq` — a backoff doubles with each strike until it is cut at its cap.
* `refusal_durations` — the two together, with the hold of a temporary ban.
-/
import IrcBot.ServerNumerics

namespace IrcBot.Refusals

open Cstr

/-- `ServerBlockKind`. -/
inductive BlockKind where
  | none
  | throttled
  | banned
  | bannedTemp
  | bannedPerm
deriving DecidableEq, Repr

/-! ### Words -/

/-- `refusal_fold`: lower case, hyphens dropped. -/
def refusalFold (src : Str) : Str :=
  ((src.filter (· ≠ byte '-')).map lower).take (ircRefusalLen - 1)

/-- `find_from`. -/
def findFrom (hay needle : Str) (start : Nat) : Option Nat :=
  if needle.isEmpty || hay.length < start then .none
  else ((hay.drop start).tails.findIdx? (needle.isPrefixOf ·)).map (· + start)

/-- The walk of `refusal_find` over the matches. `fuel` is at least the number of places that are
left. -/
def refusalFindLoop (hay needle : Str) : Nat → Option Nat → Option Nat
  | 0, _ => .none
  | _, .none => .none
  | fuel + 1, some p =>
      if p = 0 ∨ !((hay[p - 1]?).any isAlpha) then some (p + needle.length)
      else refusalFindLoop hay needle fuel (findFrom hay needle (p + 1))

/-- `refusal_find`: just behind the first match at the start of a word. -/
def refusalFind (hay needle : Str) : Option Nat :=
  refusalFindLoop hay needle (hay.length + 1) (findFrom hay needle 0)

/-! ### A stated length -/

/-- `UNITS`. -/
def units : List (Str × Int) :=
  [(str "s", 1), (str "sec", 1), (str "secs", 1), (str "second", 1), (str "seconds", 1),
    (str "m", 60), (str "min", 60), (str "mins", 60), (str "minute", 60), (str "minutes", 60),
    (str "h", 3600), (str "hr", 3600), (str "hrs", 3600), (str "hour", 3600), (str "hours", 3600),
    (str "d", 86400), (str "day", 86400), (str "days", 86400),
    (str "w", 604800), (str "wk", 604800), (str "week", 604800), (str "weeks", 604800),
    (str "mo", 2592000), (str "month", 2592000), (str "months", 2592000),
    (str "y", 31536000), (str "yr", 31536000), (str "year", 31536000), (str "years", 31536000)]

/-- The seconds of a unit; 0 for an unknown word. -/
def unitOf (word : Str) : Int := ((units.find? fun u => u.1 == word).map (·.2)).getD 0

/-- The text from its first digit on, or none behind 48 other bytes. A NUL ends the text. -/
def durationStart (skipped : Nat) : Str → Option Str
  | [] => some []
  | c :: s =>
      if c ≠ 0 ∧ !isDigit c then
        if 48 < skipped + 1 then .none else durationStart (skipped + 1) s
      else some (c :: s)

/-- The digits of a number; none where an operation overflows. -/
def durationNumber (n : Int) : Str → Option (Int × Str)
  | [] => some (n, [])
  | c :: s =>
      if isDigit c then
        if n < 1000000000 then
          (checkedI64 (n * 10)).bind fun m => (checkedI64 (m + (c - 48).toNat)).bind fun m =>
            durationNumber m s
        else durationNumber n s
      else some (n, c :: s)

/-- Numbers with their units, `left` of them at most. -/
def durationPairs : Nat → Int → Str → Option Int
  | 0, total, _ => some total
  | left + 1, total, s =>
      if !s.head?.any isDigit then some total
      else
        (durationNumber 0 s).bind fun (n, s) =>
          let s := s.dropWhile (· = byte ' ')
          let unit := unitOf ((s.takeWhile isAlpha).take 11)
          let s := s.dropWhile isAlpha
          if unit = 0 then some total
          else
            (checkedI64 (n * unit)).bind fun part => (checkedI64 (total + part)).bind fun total =>
              if ircBanStatedMax ≤ total then some ircBanStatedMax
              else durationPairs left total (s.dropWhile fun c => c = byte ' ' ∨ c = byte ',')

/-- `refusal_parse_duration`; none where an operation overflows. -/
def refusalParseDuration (s : Str) : Option Int :=
  match durationStart 0 s with
  | .none => some 0
  | some s => durationPairs 4 0 s

/-! ### The verdict -/

def banWords : List Str :=
  [str "kline", str "gline", str "zline", str "dline", str "akill", str "autokill", str "banned",
    str "not welcome"]

def throttleWords : List Str := [str "throttl", str "too fast", str "too many"]

/-- `refusal_classify`: the kind of the refusal, and the length it states. -/
def refusalClassify (text : Str) (banNumeric : Bool) : Option (BlockKind × Int) :=
  let t := refusalFold text
  -- an oper KILL or the echo of our own QUIT is not a ban
  if !banNumeric && ((findFrom t (str "killed (") 0).isSome || (findFrom t (str "(quit:") 0).isSome) then
    some (.none, 0)
  else if banNumeric || banWords.any fun w => (refusalFind t w).isSome then
    match (refusalFind t (str "temporar")).or (refusalFind t (str "expire")) with
    | some after =>
        (refusalParseDuration (t.drop after)).map fun secs =>
          if 0 < secs then (.bannedTemp, secs) else (.banned, 0)
    | .none => some (if (refusalFind t (str "permanent")).isSome then .bannedPerm else .banned, 0)
  else if throttleWords.any fun w => (refusalFind t w).isSome then some (.throttled, 0)
  else some (.none, 0)

/-- The doublings of a backoff, at most one for each strike after the first. -/
def backoffLoop (cap : Int) : Nat → Int → Option Int
  | 0, s => some s
  | more + 1, s => if s < cap then (checkedI64 (s * 2)).bind (backoffLoop cap more) else some s

/-- `refusal_backoff`; none where a doubling overflows. -/
def refusalBackoff (base strikes cap : Int) : Option Int :=
  (backoffLoop cap (strikes - 1).toNat base).map fun s => min s cap

/-- How long a server is left alone. -/
def holdFor (kind : BlockKind) (stated strikes : Int) : Option Int :=
  match kind with
  | .throttled => refusalBackoff ircThrottleBackoff strikes ircThrottleBackoffMax
  | .banned => refusalBackoff ircBanBackoff strikes ircBanBackoffMax
  -- the stated length, but never shorter than a throttle would be
  | .bannedTemp =>
      (refusalBackoff ircThrottleBackoff strikes ircBanBackoffMax).bind fun floor =>
        (checkedI64 (stated + ircBanGrace)).map fun secs => max secs floor
  | _ => some 0

/-- `ServerBlock`: the hold on a server. -/
structure ServerBlock where
  kind : BlockKind := .none
  untilTime : Int := 0
  strikes : Int := 0
  reason : Str := []
deriving DecidableEq, Repr

/-- The hold after one more refusal of the kind; none where an operation overflows. -/
def strike (now : Int) (kind : BlockKind) (stated : Int) (reason : Str) (b : ServerBlock) :
    Option ServerBlock :=
  let strikes := if b.strikes < 32 then b.strikes + 1 else b.strikes
  (holdFor kind stated strikes).map fun hold =>
    { kind, untilTime := if kind = .bannedPerm then 0 else now + hold, strikes, reason }

/-! ### No match is missed -/

theorem findFrom_bounds {hay needle : Str} {start p : Nat}
    (h : findFrom hay needle start = some p) : start ≤ p ∧ p ≤ hay.length := by
  rw [findFrom] at h
  split at h
  · cases h
  · rename_i hfits
    rw [Bool.or_eq_true, not_or, decide_eq_true_eq, Nat.not_lt] at hfits
    obtain ⟨k, hk, rfl⟩ := Option.map_eq_some_iff.mp h
    have hlt := (List.findIdx?_eq_some_iff_findIdx_eq.mp hk).1
    rw [List.length_tails, List.length_drop] at hlt
    omega

/-- **The walk over the matches ends before its fuel does.** -/
theorem refusalFindLoop_fuel (hay needle : Str) (fuel : Nat) : ∀ {start more : Nat},
    hay.length < start + fuel → refusalFindLoop hay needle (fuel + more) (findFrom hay needle start) =
      refusalFindLoop hay needle fuel (findFrom hay needle start) := by
  induction fuel with
  | zero =>
      intro start more hfuel
      have hnone : findFrom hay needle start = none := by
        rw [findFrom, if_pos (by simp [show hay.length < start from hfuel])]
      rw [hnone]
      cases more <;> rfl
  | succ fuel ih =>
      intro start more hfuel
      rw [Nat.add_right_comm]
      cases hfind : findFrom hay needle start with
      | none => rfl
      | some p =>
          have hp := (findFrom_bounds hfind).1
          rw [refusalFindLoop, refusalFindLoop, ih (by omega)]

/-! ### Lengths -/

theorem unitOf_bounded (word : Str) : 0 ≤ unitOf word ∧ unitOf word ≤ 31536000 := by
  have hunits : ∀ u ∈ units, 0 ≤ u.2 ∧ u.2 ≤ 31536000 := by decide
  rw [unitOf]
  cases hfind : units.find? fun u => u.1 == word with
  | none => decide
  | some u => exact hunits u (List.mem_of_find?_eq_some hfind)

theorem checkedI64_of_bounds {x : Int} (hmin : i64Min ≤ x) (hmax : x ≤ i64Max) :
    checkedI64 x = some x :=
  if_pos ⟨hmin, hmax⟩

/-- A number is cut short after ten digits. -/
theorem durationNumber_bounded (s : Str) : ∀ {n : Int}, 0 ≤ n → n ≤ 9999999999 →
    ∃ m rest, durationNumber n s = some (m, rest) ∧ 0 ≤ m ∧ m ≤ 9999999999 := by
  induction s with
  | nil => exact fun hmin hmax => ⟨_, [], rfl, hmin, hmax⟩
  | cons c s ih =>
      intro n hmin hmax
      rw [durationNumber]
      split
      · rename_i hdigit
        have hvalue : (c - 48).toNat ≤ 9 := by
          rw [isDigit, Bool.and_eq_true, decide_eq_true_eq, decide_eq_true_eq] at hdigit
          have hlow := UInt8.le_iff_toNat_le.mp hdigit.1
          have hhigh := UInt8.le_iff_toNat_le.mp hdigit.2
          rw [UInt8.toNat_sub_of_le _ _ hdigit.1]
          change 48 ≤ c.toNat at hlow
          change c.toNat ≤ 57 at hhigh
          change c.toNat - 48 ≤ 9
          omega
        split
        · have htimes : checkedI64 (n * 10) = some (n * 10) :=
            checkedI64_of_bounds (by unfold i64Min; omega) (by unfold i64Max; omega)
          have hplus : checkedI64 (n * 10 + (c - 48).toNat) = some (n * 10 + (c - 48).toNat) :=
            checkedI64_of_bounds (by unfold i64Min; omega) (by unfold i64Max; omega)
          rw [htimes, Option.bind_some, hplus, Option.bind_some]
          exact ih (by omega) (by omega)
        · exact ih hmin hmax
      · exact ⟨n, c :: s, rfl, hmin, hmax⟩

theorem durationPairs_bounded (left : Nat) : ∀ (s : Str) {total : Int},
    0 ≤ total → total ≤ ircBanStatedMax →
      ∃ v, durationPairs left total s = some v ∧ 0 ≤ v ∧ v ≤ ircBanStatedMax := by
  induction left with
  | zero => exact fun s total hmin hmax => ⟨total, rfl, hmin, hmax⟩
  | succ left ih =>
      intro s total hmin hmax
      rw [durationPairs]
      split
      · exact ⟨total, rfl, hmin, hmax⟩
      · obtain ⟨n, rest, hnumber, hnmin, hnmax⟩ :=
          durationNumber_bounded s (Int.le_refl 0) (by decide)
        rw [hnumber, Option.bind_some]
        dsimp only
        generalize hword : ((rest.dropWhile (· = byte ' ')).takeWhile isAlpha).take 11 = word
        obtain ⟨humin, humax⟩ := unitOf_bounded word
        split
        · exact ⟨total, rfl, hmin, hmax⟩
        · -- ten digits of the longest unit are far from the largest integer
          have hpart : 0 ≤ n * unitOf word := Int.mul_nonneg hnmin humin
          have hlarge : n * unitOf word ≤ 9999999999 * 31536000 :=
            Int.mul_le_mul hnmax humax humin (by decide)
          unfold ircBanStatedMax at hmax
          rw [checkedI64_of_bounds (by unfold i64Min; omega) (by unfold i64Max; omega),
            Option.bind_some,
            checkedI64_of_bounds (by unfold i64Min; omega) (by unfold i64Max; omega),
              Option.bind_some]
          split
          · exact ⟨ircBanStatedMax, rfl, by decide, Int.le_refl _⟩
          · rename_i hshort
            exact ih _ (by omega) (Int.le_of_lt (Int.not_le.mp hshort))

/-- **Any text gives a length between 0 and the cap.** -/
theorem refusalParseDuration_bounded (s : Str) :
    ∃ v, refusalParseDuration s = some v ∧ 0 ≤ v ∧ v ≤ ircBanStatedMax := by
  rw [refusalParseDuration]
  split
  · exact ⟨0, rfl, Int.le_refl 0, by decide⟩
  · exact durationPairs_bounded 4 _ (Int.le_refl 0) (by decide)

/-- Any text gets a verdict. -/
theorem refusalClassify_bounded (text : Str) (banNumeric : Bool) :
    ∃ kind stated, refusalClassify text banNumeric = some (kind, stated) ∧
      0 ≤ stated ∧ stated ≤ ircBanStatedMax := by
  have hzero : (0 : Int) ≤ 0 ∧ (0 : Int) ≤ ircBanStatedMax := by decide
  unfold refusalClassify
  dsimp only
  split
  · exact ⟨_, _, rfl, hzero⟩
  · split
    · split
      · rename_i after _
        obtain ⟨v, hv, hmin, hmax⟩ := refusalParseDuration_bounded ((refusalFold text).drop after)
        rw [hv, Option.map_some]
        split
        · exact ⟨_, _, rfl, hmin, hmax⟩
        · exact ⟨_, _, rfl, hzero⟩
      · split
        · exact ⟨_, _, rfl, hzero⟩
        · exact ⟨_, _, rfl, hzero⟩
    · split
      · exact ⟨_, _, rfl, hzero⟩
      · exact ⟨_, _, rfl, hzero⟩

/-! ### Backoffs -/

/-- The doublings stop at the cap, so that a larger number is never doubled. -/
theorem backoffLoop_eq {cap : Int} (hcap : cap * 2 ≤ i64Max) (more : Nat) : ∀ {s : Int}, 0 ≤ s →
    ∃ r, backoffLoop cap more s = some r ∧ min r cap = min (s * 2 ^ more) cap := by
  induction more with
  | zero =>
      intro s _
      exact ⟨s, rfl, by rw [Int.pow_zero, Int.mul_one]⟩
  | succ more ih =>
      intro s hs
      rw [backoffLoop]
      split
      · rename_i hlt
        obtain ⟨r, hr, hmin⟩ := ih (s := s * 2) (by omega)
        refine ⟨r, ?_, ?_⟩
        · rw [checkedI64_of_bounds (by unfold i64Min; omega) (by omega), Option.bind_some, hr]
        · rw [hmin, Int.mul_assoc, ← Int.pow_succ']
      · rename_i hge
        have hpow : (1 : Int) ≤ 2 ^ (more + 1) := Int.pow_pos (by decide)
        have hgrow : s * 1 ≤ s * 2 ^ (more + 1) := Int.mul_le_mul_of_nonneg_left hpow hs
        exact ⟨s, rfl, by omega⟩

/-- **A backoff doubles with each strike after the first, up to its cap.** -/
theorem refusalBackoff_eq {base cap : Int} (hbase : 0 ≤ base) (hcap : cap * 2 ≤ i64Max)
    (strikes : Int) :
    refusalBackoff base strikes cap = some (min (base * 2 ^ (strikes - 1).toNat) cap) := by
  obtain ⟨r, hr, hmin⟩ := backoffLoop_eq hcap (strikes - 1).toNat hbase
  rw [refusalBackoff, hr, Option.map_some, hmin]

theorem backoff_mono {base : Int} (hbase : 0 ≤ base) (cap : Int) {strikes strikes' : Int}
    (h : strikes ≤ strikes') :
    min (base * 2 ^ (strikes - 1).toNat) cap ≤ min (base * 2 ^ (strikes' - 1).toNat) cap := by
  have hle : (strikes - 1).toNat ≤ (strikes' - 1).toNat := Int.toNat_le_toNat (by omega)
  have hpow : (2 : Int) ^ (strikes - 1).toNat ≤ 2 ^ (strikes' - 1).toNat := by
    exact_mod_cast Nat.pow_le_pow_right (by decide) hle
  have hgrow := Int.mul_le_mul_of_nonneg_left hpow hbase
  omega

/-- The first lengths and the caps of the backoffs in use. -/
def backoffs : List (Int × Int) :=
  [(ircThrottleBackoff, ircThrottleBackoffMax), (ircBanBackoff, ircBanBackoffMax),
    (ircThrottleBackoff, ircBanBackoffMax)]

theorem backoffs_fit : ∀ w ∈ backoffs, 0 ≤ w.1 ∧ w.2 * 2 ≤ i64Max := by decide

/-- A hold can always be worked out; that of a temporary ban is no shorter than a throttle's. -/
theorem holdFor_some (kind : BlockKind) {stated : Int} (hmin : 0 ≤ stated)
    (hmax : stated ≤ ircBanStatedMax) (strikes : Int) : ∃ throttle hold,
      refusalBackoff ircThrottleBackoff strikes ircThrottleBackoffMax = some throttle ∧
      holdFor kind stated strikes = some hold ∧ (kind = .bannedTemp → throttle ≤ hold) := by
  have hback {base cap : Int} (hmem : (base, cap) ∈ backoffs) :=
    refusalBackoff_eq (backoffs_fit _ hmem).1 (backoffs_fit _ hmem).2 strikes
  rw [hback (by decide)]
  cases kind with
  | none => exact ⟨_, _, rfl, rfl, nofun⟩
  | throttled => exact ⟨_, _, rfl, hback (by decide), nofun⟩
  | banned => exact ⟨_, _, rfl, hback (by decide), nofun⟩
  | bannedPerm => exact ⟨_, _, rfl, rfl, nofun⟩
  | bannedTemp =>
      unfold ircBanStatedMax at hmax
      refine ⟨_, max (stated + ircBanGrace)
        (min (ircThrottleBackoff * 2 ^ (strikes - 1).toNat) ircBanBackoffMax), rfl, ?_, fun _ => ?_⟩
      · rw [holdFor, hback (by decide), Option.bind_some,
          checkedI64_of_bounds (by unfold i64Min ircBanGrace; omega) (by unfold i64Max ircBanGrace; omega)]
        rfl
      · -- the floor is the same backoff under a larger cap
        dsimp only
        unfold ircThrottleBackoffMax ircBanBackoffMax
        omega

/-- **Refusals are safe whatever the server says.** A length is read out of any bytes without an
overflow and within its cap. Any refusal can be counted against a server, and a temporary ban holds
it no shorter than a throttle would. A backoff never gets shorter with more strikes, nor longer than
its cap. -/
theorem refusal_durations :
    (∀ s : Str, ∃ v, refusalParseDuration s = some v ∧ 0 ≤ v ∧ v ≤ ircBanStatedMax) ∧
    (∀ (text : Str) (banNumeric : Bool) (now : Int) (b : ServerBlock), ∃ kind stated b',
      refusalClassify text banNumeric = some (kind, stated) ∧
        strike now kind stated text b = some b' ∧
        (kind = .bannedTemp → ∃ throttle,
          refusalBackoff ircThrottleBackoff b'.strikes ircThrottleBackoffMax = some throttle ∧
            now + throttle ≤ b'.untilTime)) ∧
    ∀ w ∈ backoffs, ∀ strikes strikes' : Int, strikes ≤ strikes' → ∃ h h',
      refusalBackoff w.1 strikes w.2 = some h ∧ refusalBackoff w.1 strikes' w.2 = some h' ∧
        h ≤ h' ∧ h' ≤ w.2 := by
  refine ⟨refusalParseDuration_bounded, fun text banNumeric now b => ?_,
    fun w hw strikes strikes' hle => ?_⟩
  · obtain ⟨kind, stated, hclass, hmin, hmax⟩ := refusalClassify_bounded text banNumeric
    obtain ⟨throttle, hold, hthrottle, hhold, hfloor⟩ :=
      holdFor_some kind hmin hmax (if b.strikes < 32 then b.strikes + 1 else b.strikes)
    refine ⟨kind, stated, _, hclass, by rw [strike, hhold, Option.map_some], fun htemp => ⟨throttle, hthrottle, ?_⟩⟩
    have hkind : kind ≠ .bannedPerm := by
      rw [htemp]
      exact nofun
    dsimp only
    rw [if_neg hkind]
    exact Int.add_le_add_left (hfloor htemp) now
  · obtain ⟨hbase, hcap⟩ := backoffs_fit w hw
    exact ⟨_, _, refusalBackoff_eq hbase hcap strikes, refusalBackoff_eq hbase hcap strikes',
      backoff_mono hbase w.2 hle, Int.min_le_right _ _⟩

example : refusalParseDuration (str " for 1h30m.") = some 5400 := by decide

example : refusalParseDuration (str " 1h, 99999999999 years") = some ircBanStatedMax := by decide

end IrcBot.Refusals

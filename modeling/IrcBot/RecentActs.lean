/-
# The memory of recent acts (`chanenf.rs`)

What the bot has just done is noted in a ring, under a key of the channel, the act and the
target, so that it is not done again before the server has answered. The answer
(`recent_ack`) ends that, and so does the window; the oldest note makes room for a new one.

* `pendingKey_congr` — the key of an act does not depend on the case of the names.
* `Since.held` — a note stays until it is answered or overwritten.
* `recentKey_of_held` — as long as it is there, the act is held back inside its window.
-/
import IrcBot.Election
import IrcBot.ModeEvents

namespace IrcBot.RecentActs

open Cstr Chanenf Election Enforce ModeEvents

/-! ### The keys of the ring -/

/-- The key under which an act is in the ring. -/
def pendingKey (name act target : Str) : Str :=
  lowerCopy (recentKeyOf name act target) (maxChan + 8 + maxMaskLen)

theorem pendingKey_eq (name act target : Str) :
    pendingKey name act target = (recentKeyOf name act target).map lower := by
  unfold pendingKey lowerCopy
  have hlen : (recentKeyOf name act target).length < maxChan + 8 + maxMaskLen := by
    have h := length_trunc_le (name ++ str "|" ++ act ++ str "|" ++ target)
      (maxChan + 8 + maxMaskLen)
    have hpos : 0 < maxChan + 8 + maxMaskLen := by decide
    unfold recentKeyOf
    omega
  rw [trunc_of_lt hlen]

theorem getElem?_trunc {s : Str} {cap m k : Nat} (hboundary : isCharBoundary s m = true)
    (hm : m ≤ cap - 1) (hk : k < m) : (trunc s cap)[k]? = s[k]? := by
  unfold trunc
  dsimp only
  split
  · rfl
  · exact List.getElem?_take_of_lt (Nat.lt_of_lt_of_le hk (le_cutBack hboundary hm))

/-- The first letter of the act is in the key, past the channel's name. -/
theorem pendingKey_act {name target rest : Str} (hname : name.length < maxChan) {x y : UInt8}
    (hy : y < 128) :
    (pendingKey name (x :: y :: rest) target)[name.length + 1]? = some (lower x) := by
  have hletters (k : Nat) : (name ++ str "|" ++ (x :: y :: rest) ++ str "|" ++ target)[name.length + k]? =
      (byte '|' :: x :: y :: (rest ++ str "|" ++ target))[k]? := by
    rw [show str "|" = [byte '|'] from rfl]
    simp only [List.append_assoc, List.cons_append, List.nil_append]
    rw [List.getElem?_append_right (Nat.le_add_right _ _), Nat.add_sub_cancel_left]
  have hboundary : isCharBoundary (name ++ str "|" ++ (x :: y :: rest) ++ str "|" ++ target)
      (name.length + 2) = true := by
    unfold isCharBoundary
    rw [hletters 2]
    simp [hy]
  have hcap : name.length + 2 ≤ maxChan + 8 + maxMaskLen - 1 := by
    have hpos : 8 < 8 + maxMaskLen := by decide
    omega
  rw [pendingKey_eq, List.getElem?_map]
  unfold recentKeyOf
  rw [getElem?_trunc hboundary hcap (by omega), hletters 1]
  rfl

/-- The case of the names does not count. -/
theorem pendingKey_congr {name name' target target' : Str} (hname : eqIc name name' = true)
    (htarget : eqIc target target' = true) (act : Str) :
    pendingKey name act target = pendingKey name' act target' := by
  unfold pendingKey recentKeyOf
  rw [lowerCopy, lowerCopy, map_lower_trunc, map_lower_trunc, map_lower_trunc, map_lower_trunc]
  simp only [List.map_append, eqIc_iff.mp hname, eqIc_iff.mp htarget]

/-! ### Notes -/

/-- The ring has its slots, and the index of one of them. -/
def RingOk (b : BotState) : Prop :=
  b.enfRecent.length = IrcBot.enfRecent ∧ b.enfRecentIdx < IrcBot.enfRecent

/-- A note of `key`, taken at `t`, is in a slot. -/
def Held (slot : Nat) (key : Str) (t : Int) (b : BotState) : Prop :=
  b.enfRecent[slot]? = some ⟨key, t⟩

/-- An act that is let through is noted in the next slot. -/
theorem recentKey_noted {b : BotState} {name act target : Str} {windowMs : Int}
    (h : (recentKey b name act target windowMs).1 = false) :
    (recentKey b name act target windowMs).2 = { b with
      enfRecent := b.enfRecent.set b.enfRecentIdx ⟨pendingKey name act target, b.monoMs⟩
      enfRecentIdx := (b.enfRecentIdx + 1) % IrcBot.enfRecent } := by
  unfold recentKey at h ⊢
  dsimp only at h ⊢
  split at h
  · cases h
  · rename_i hnew
    rw [if_neg hnew]
    rfl

theorem recentKey_again {b : BotState} {name act target : Str} {windowMs : Int}
    (h : (recentKey b name act target windowMs).1 = true) :
    (recentKey b name act target windowMs).2 = b := by
  unfold recentKey at h ⊢
  dsimp only at h ⊢
  split at h
  · rename_i hpending
    rw [if_pos hpending]
  · cases h

theorem held_of_noted {b : BotState} (hb : RingOk b) {name act target : Str} {windowMs : Int}
    (h : (recentKey b name act target windowMs).1 = false) :
    Held b.enfRecentIdx (pendingKey name act target) b.monoMs
      (recentKey b name act target windowMs).2 := by
  rw [recentKey_noted h, Held]
  exact List.getElem?_set_self (hb.1 ▸ hb.2)

/-- Inside its window an act that is noted is held back. -/
theorem recentKey_of_held {slot : Nat} {name act target : Str} {t windowMs : Int} {b : BotState}
    (h : Held slot (pendingKey name act target) t b) (ht : t ≠ 0)
    (hwindow : b.monoMs - t < windowMs) : (recentKey b name act target windowMs).1 = true := by
  have hpending : (b.enfRecent.any fun r => r.whenMs != 0 && r.key == pendingKey name act target &&
      b.monoMs - r.whenMs < windowMs) = true := by
    rw [List.any_eq_true]
    exact ⟨_, List.mem_of_getElem? h, by simp [ht, hwindow]⟩
  unfold pendingKey at hpending
  unfold recentKey
  dsimp only
  rw [if_pos hpending]

/-! ### Runs -/

/-- What the bot does from `b` on, as long as the note in `slot` is not overwritten and no
answer to the act `key` comes in: it notes further acts, is answered, and does all that
leaves the ring as it is. -/
inductive Since (slot : Nat) (key : Str) (b : BotState) : BotState → Prop where
  | start : Since slot key b b
  | note {b' : BotState} (name act target : Str) (windowMs : Int) : Since slot key b b' →
      ((recentKey b' name act target windowMs).1 = true ∨ b'.enfRecentIdx ≠ slot) →
      Since slot key b (recentKey b' name act target windowMs).2
  | ack {b' : BotState} (name act target : Str) : Since slot key b b' →
      pendingKey name act target ≠ key → Since slot key b (recentAck b' name act target)
  | other {b' b'' : BotState} : Since slot key b b' → b''.enfRecent = b'.enfRecent →
      b''.enfRecentIdx = b'.enfRecentIdx → b'.monoMs ≤ b''.monoMs → Since slot key b b''

/-- **A note stays** until it is answered or overwritten. -/
theorem Since.held {slot : Nat} {key : Str} {t : Int} {b b' : BotState} (h : Since slot key b b')
    (hb : Held slot key t b) : Held slot key t b' := by
  induction h with
  | start => exact hb
  | @note b' name act target windowMs _ hkept ih =>
      cases hseen : (recentKey b' name act target windowMs).1 with
      | true =>
          rw [recentKey_again hseen]
          exact ih
      | false =>
          have hne : b'.enfRecentIdx ≠ slot := by
            rcases hkept with hagain | hne
            · rw [hseen] at hagain
              cases hagain
            · exact hne
          rw [recentKey_noted hseen, Held, List.getElem?_set_ne hne]
          exact ih
  | @ack b' name act target _ hother ih =>
      have hsame : (key == pendingKey name act target) = false :=
        beq_eq_false_iff_ne.mpr (Ne.symm hother)
      unfold Held recentAck at *
      dsimp only
      rw [List.getElem?_map, ih, Option.map_some]
      have hkeep : ¬ ((t != 0 && key == pendingKey name act target) = true) := by
        rw [hsame, Bool.and_false]
        exact Bool.false_ne_true
      exact congrArg some (if_neg hkeep)
  | other _ hring _ _ ih =>
      rw [Held, hring]
      exact ih

end IrcBot.RecentActs

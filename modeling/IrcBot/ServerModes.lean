/-
# What the server's mode letters do to the live state (`chanlive.rs`)

The server holds the modes and the ban list of a channel. A letter moves them by the class
ISUPPORT puts it into; `apply` moves what the bot holds.

* `Server.change` — what a mode letter means.
* `applyLoop_spells` — `apply` finds the argument of every letter.
* `modesAgree_step`, `bansAgree_step` — one letter moves what the bot holds as it moves what
  the server holds.
-/
import IrcBot.LiveModes
import IrcBot.Spelling
import IrcBot.Lib.Mirror

namespace IrcBot.ServerModes

open Cstr Chancfg Chanlive LiveModes Lib.IrcMessage Lib.Mirror Spelling

/-! ### The server -/

/-- The classes ISUPPORT puts the letters into: `b` is a list, `k` has an argument whenever
it changes, `l` when it is set. No letter is in two of them. -/
structure Classes (is : Isupport) : Prop where
  list : byte 'b' ∈ is.cmA
  key : byte 'k' ∈ is.cmB
  limit : byte 'l' ∈ is.cmC
  distinct : (is.prefixModes ++ is.cmA ++ is.cmB ++ is.cmC ++ is.cmD).Nodup
  letters : ∀ m ∈ is.prefixModes ++ is.cmA ++ is.cmB ++ is.cmC ++ is.cmD, isAlpha m = true

/-- One letter that is set or cleared, with its argument. -/
structure Change where
  adding : Bool
  letter : UInt8
  arg : Option Str := none

/-- The classes whose letters come with an argument. -/
def Change.Takes (is : Isupport) (x : Change) : Prop :=
  x.letter ∈ is.prefixModes ∨ x.letter ∈ is.cmA ∨ x.letter ∈ is.cmB ∨
    x.letter ∈ is.cmC ∧ x.adding = true

/-- A mask, a key or a limit that is well formed. -/
structure Shape (x : Change) (a : Str) : Prop where
  word : Word a
  mask : x.letter = byte 'b' → a.length < maxMaskLen
  key : x.letter = byte 'k' → x.adding = true → a.length ≤ 30
  limit : x.letter = byte 'l' → x.adding = true → a.length ≤ 6 ∧ ∀ c ∈ a, isDigit c = true

/-- A letter of the server's, with an argument if it takes one. -/
structure Change.Ok (is : Isupport) (x : Change) : Prop where
  letter : x.letter ∈ is.prefixModes ++ is.cmA ++ is.cmB ++ is.cmC ++ is.cmD
  takes : x.Takes is → ∃ a, x.arg = some a ∧ Shape x a
  bare : ¬ x.Takes is → x.arg = none

/-- The modes and the ban list of a channel. -/
structure Server where
  flags : UInt8 → Bool := fun _ => false
  key : Option Str := none
  limit : Option Nat := none
  bans : List Str := []

/-- A mask up to ASCII case. -/
def fold (mask : Str) : Str := mask.map lower

/-- The number that digits stand for. -/
def number (digits : Str) : Nat := digits.foldl (fun n c => n * 10 + (c - 48).toNat) 0

/-- What one letter changes. The other lists, the status of members and the other settings
are none of what is tracked. -/
def Server.change (is : Isupport) (s : Server) (x : Change) : Server :=
  if x.letter = byte 'b' then
    x.arg.elim s fun a =>
      if x.adding then
        if ∃ m ∈ s.bans, fold m = fold a then s else { s with bans := s.bans ++ [a] }
      else { s with bans := s.bans.filter fun m => fold m ≠ fold a }
  else if x.letter = byte 'k' then { s with key := if x.adding then x.arg else none }
  else if x.letter = byte 'l' then
    { s with limit := if x.adding then x.arg.map number else none }
  else if x.letter ∈ is.cmD then
    { s with flags := fun m => if m = x.letter then x.adding else s.flags m }
  else s

/-- A ban list that the server keeps. -/
structure Server.Ok (is : Isupport) (s : Server) : Prop where
  distinct : (s.bans.map fold).Nodup
  mask : ∀ m ∈ s.bans, Word m ∧ m.length < maxMaskLen
  room : s.bans.length ≤ is.banCap

/-- Letters the server can go through one after the other. -/
def Goes (is : Isupport) : Server → List Change → Prop
  | _, [] => True
  | s, x :: xs => x.Ok is ∧ (s.change is x).bans.length ≤ is.banCap ∧ Goes is (s.change is x) xs

/-- The mode word and the arguments that stand for the letters. -/
structure Spells (modes : Str) (args : List Str) (xs : List Change) : Prop where
  letters : signed true modes = xs.map fun x => (x.adding, x.letter)
  args : args = xs.filterMap (·.arg)

/-- The modes that two states of a server have in common. -/
structure SameModes (is : Isupport) (s s' : Server) : Prop where
  flag : ∀ m ∈ is.cmD, s.flags m = s'.flags m
  key : s.key = s'.key
  limit : s.limit = s'.limit

/-- Letters that tell all modes: read from nothing they give what the server holds. -/
structure Reports (is : Isupport) (s : Server) (xs : List Change) : Prop where
  ok : ∀ x ∈ xs, x.Ok is
  same : SameModes is (xs.foldl (Server.change is) {}) s

/-! ### What the bot holds -/

/-- The tracked flags, key and limit are those of the server. -/
structure ModesAgree (is : Isupport) (s : Server) (c : Chan) : Prop where
  flag : ∀ m ∈ is.cmD, liveHas c m = s.flags m
  hasKey : liveHas c (byte 'k') = s.key.isSome
  key : c.liveKey = s.key.getD []
  hasLimit : liveHas c (byte 'l') = s.limit.isSome
  limit : c.liveLimit = ((s.limit.getD 0 : Nat) : Int)

/-- The tracked ban list is that of the server. -/
def BansAgree (s : Server) (c : Chan) : Prop :=
  Mirrors (fold ·.mask) fold c.bans s.bans

/-- What is tracked of a channel. -/
def live (c : Chan) : UInt64 × Str × Int × List LiveBan × Bool :=
  (c.liveFlags, c.liveKey, c.liveLimit, c.bans, c.banListOpen)

section

variable {is : Isupport} {s s' : Server} {c c' : Chan}

theorem ModesAgree.congr (h : ModesAgree is s c) (hflags : c'.liveFlags = c.liveFlags)
    (hkey : c'.liveKey = c.liveKey) (hlimit : c'.liveLimit = c.liveLimit) : ModesAgree is s c' := by
  have hhas (m : UInt8) : liveHas c' m = liveHas c m := by
    unfold liveHas
    rw [hflags]
  constructor
  · intro m hm
    rw [hhas]
    exact h.flag m hm
  · rw [hhas]
    exact h.hasKey
  · rw [hkey]
    exact h.key
  · rw [hhas]
    exact h.hasLimit
  · rw [hlimit]
    exact h.limit

theorem ModesAgree.of_same (h : ModesAgree is s c) (hsame : SameModes is s s') :
    ModesAgree is s' c := by
  constructor
  · intro m hm
    rw [h.flag m hm, hsame.flag m hm]
  · rw [h.hasKey, hsame.key]
  · rw [h.key, hsame.key]
  · rw [h.hasLimit, hsame.limit]
  · rw [h.limit, hsame.limit]

theorem live_eq (h : live c' = live c) :
    c'.liveFlags = c.liveFlags ∧ c'.liveKey = c.liveKey ∧ c'.liveLimit = c.liveLimit ∧
      c'.bans = c.bans ∧ c'.banListOpen = c.banListOpen := by
  unfold live at h
  rw [Prod.mk.injEq, Prod.mk.injEq, Prod.mk.injEq, Prod.mk.injEq] at h
  exact h

theorem ModesAgree.of_live (h : ModesAgree is s c) (hlive : live c' = live c) :
    ModesAgree is s c' := by
  obtain ⟨hflags, hkey, hlimit, -⟩ := live_eq hlive
  exact h.congr hflags hkey hlimit

end

/-! ### One letter -/

section

variable {is : Isupport} (hclasses : Classes is) {x : Change}
include hclasses

theorem Classes.notMem_settings {m : UInt8} (hm : m ∈ is.cmD) :
    m ∉ is.prefixModes ∧ m ∉ is.cmA ∧ m ∉ is.cmB ∧ m ∉ is.cmC := by
  have hdistinct := hclasses.distinct
  rw [List.nodup_append] at hdistinct
  have hne (q : UInt8) (hq : q ∈ is.prefixModes ++ is.cmA ++ is.cmB ++ is.cmC) : q ≠ m :=
    hdistinct.2.2 q hq m hm
  refine ⟨fun h => hne m ?_ rfl, fun h => hne m ?_ rfl, fun h => hne m ?_ rfl,
    fun h => hne m ?_ rfl⟩
  all_goals simp [h]

/-- `mode_has_arg` goes by the classes. -/
theorem modeHasArg_iff (hx : x.letter ∈ is.prefixModes ++ is.cmA ++ is.cmB ++ is.cmC ++ is.cmD) :
    is.modeHasArg x.letter x.adding = true ↔ x.Takes is := by
  have hne : x.letter ≠ 0 := by
    intro h0
    have halpha := hclasses.letters _ hx
    rw [h0] at halpha
    exact absurd halpha (by decide)
  unfold Isupport.modeHasArg Isupport.isPrefixMode Change.Takes
  simp only [ne_eq, hne, not_false_eq_true, decide_true, Bool.true_and, List.contains_iff_mem,
    Bool.or_eq_true]
  split
  · rename_i h
    simp [h]
  · rename_i hmember
    split
    · rename_i h
      rcases h with h | h <;> simp [h]
    · rename_i hlists
      rw [not_or] at hlists
      split
      · rename_i h
        simp [hmember, hlists.1, hlists.2, h]
      · rename_i h
        simp [hmember, hlists.1, hlists.2, h]

theorem takes_key (hx : x.letter = byte 'k') : x.Takes is := .inr (.inr (.inl (hx ▸ hclasses.key)))

theorem takes_ban (hx : x.letter = byte 'b') : x.Takes is := .inr (.inl (hx ▸ hclasses.list))

theorem takes_limit (hx : x.letter = byte 'l') (hadding : x.adding = true) : x.Takes is :=
  .inr (.inr (.inr ⟨hx ▸ hclasses.limit, hadding⟩))

/-- No flag is called `k` or `l`. -/
theorem Classes.flag_ne {m : UInt8} (hm : m ∈ is.cmD) : m ≠ byte 'k' ∧ m ≠ byte 'l' := by
  obtain ⟨-, -, hB, hC⟩ := hclasses.notMem_settings hm
  constructor
  · rintro rfl
    exact hB hclasses.key
  · rintro rfl
    exact hC hclasses.limit

theorem ModesAgree.setKey {s : Server} {c : Chan} (h : ModesAgree is s c) (key : Option Str) :
    ModesAgree is { s with key }
      { setLive c (byte 'k') key.isSome with liveKey := key.getD [] } := by
  have hset (q : UInt8) (hq : isAlpha q = true) :
      liveHas (setLive c (byte 'k') key.isSome) q =
        if q = byte 'k' then key.isSome else liveHas c q :=
    liveHas_setLive c (by decide) hq key.isSome
  constructor
  · intro m hm
    have halpha := hclasses.letters m (List.mem_append_right _ hm)
    exact (hset m halpha).trans ((if_neg (hclasses.flag_ne hm).1).trans (h.flag m hm))
  · exact (hset _ (by decide)).trans (if_pos rfl)
  · rfl
  · exact (hset _ (by decide)).trans ((if_neg (by decide)).trans h.hasLimit)
  · exact h.limit

theorem ModesAgree.setLimit {s : Server} {c : Chan} (h : ModesAgree is s c) (limit : Option Nat) :
    ModesAgree is { s with limit }
      { setLive c (byte 'l') limit.isSome with liveLimit := ((limit.getD 0 : Nat) : Int) } := by
  have hset (q : UInt8) (hq : isAlpha q = true) :
      liveHas (setLive c (byte 'l') limit.isSome) q =
        if q = byte 'l' then limit.isSome else liveHas c q :=
    liveHas_setLive c (by decide) hq limit.isSome
  constructor
  · intro m hm
    have halpha := hclasses.letters m (List.mem_append_right _ hm)
    exact (hset m halpha).trans ((if_neg (hclasses.flag_ne hm).2).trans (h.flag m hm))
  · exact (hset _ (by decide)).trans ((if_neg (by decide)).trans h.hasKey)
  · exact h.key
  · exact (hset _ (by decide)).trans (if_pos rfl)
  · rfl

/-- The bit of a letter that is neither `k` nor `l` is one of a flag, or of nothing. -/
theorem modesAgree_setLive {s : Server} {c : Chan} (h : ModesAgree is s c)
    (hx : x.letter ∈ is.prefixModes ++ is.cmA ++ is.cmB ++ is.cmC ++ is.cmD)
    (hb : x.letter ≠ byte 'b') (hk : x.letter ≠ byte 'k') (hl : x.letter ≠ byte 'l') :
    ModesAgree is (s.change is x) (setLive c x.letter x.adding) := by
  have halpha := hclasses.letters
  have hset (q : UInt8) (hq : isAlpha q = true) : liveHas (setLive c x.letter x.adding) q =
      if q = x.letter then x.adding else liveHas c q :=
    liveHas_setLive c (halpha _ hx) hq x.adding
  have hkey : (s.change is x).key = s.key := by
    unfold Server.change
    rw [if_neg hb, if_neg hk, if_neg hl]
    split <;> rfl
  have hlimit : (s.change is x).limit = s.limit := by
    unfold Server.change
    rw [if_neg hb, if_neg hk, if_neg hl]
    split <;> rfl
  constructor
  · intro m hm
    rw [hset m (halpha m (List.mem_append_right _ hm)), h.flag m hm]
    unfold Server.change
    rw [if_neg hb, if_neg hk, if_neg hl]
    by_cases hflag : x.letter ∈ is.cmD
    · rw [if_pos hflag]
    · have hne : m ≠ x.letter := by
        rintro rfl
        exact hflag hm
      rw [if_neg hflag, if_neg hne]
  · rw [hset _ (by decide), if_neg hk.symm, hkey]
    exact h.hasKey
  · rw [hkey]
    exact h.key
  · rw [hset _ (by decide), if_neg hl.symm, hlimit]
    exact h.hasLimit
  · rw [hlimit]
    exact h.limit

end

/-- A letter with an argument that is none of `b`, `k` and `l` leaves what is tracked alone. -/
theorem live_applyLetter {is : Isupport} {m : UInt8} {adding : Bool} (hb : m ≠ byte 'b')
    (hk : m ≠ byte 'k') (hl : m ≠ byte 'l') (htakes : is.modeHasArg m adding = true) (now : Int)
    (from324 : Bool) (c : Chan) (a : Option Str) :
    live (applyLetter is now from324 c adding m a) = live c := by
  unfold applyLetter
  rw [if_neg hb, if_neg hk, if_neg hl, htakes]
  split
  · cases a with
    | none => rfl
    | some a =>
        dsimp only
        unfold withEntry
        split <;> rfl
  · rfl

/-- Digits of a limit are read as the number they stand for. -/
theorem atoll_digits {a : Str} (hne : a ≠ []) (hlen : a.length ≤ 6)
    (hdigit : ∀ c ∈ a, isDigit c = true) : atoll a = (number a : Int) := by
  have hfold (digits : Str) : (∀ c ∈ digits, isDigit c = true) → ∀ n : Nat,
      (n + 1) * 10 ^ digits.length ≤ 10 ^ 6 →
        digits.foldl (digitStep false) (some (n : Int)) =
          some ((digits.foldl (fun n c => n * 10 + (c - 48).toNat) n : Nat) : Int) := by
    induction digits with
    | nil => exact fun _ n _ => rfl
    | cons d digits ih =>
        intro hall n hroom
        rw [List.forall_mem_cons] at hall
        have hd : (d - 48).toNat < 10 := by
          have hdigit := hall.1
          unfold isDigit at hdigit
          simp only [Bool.and_eq_true, decide_eq_true_eq, UInt8.le_iff_toNat_le] at hdigit
          rw [UInt8.toNat_sub_of_le _ _ (UInt8.le_iff_toNat_le.mpr hdigit.1)]
          have h48 : (48 : UInt8).toNat = 48 := rfl
          have h57 : (57 : UInt8).toNat = 57 := rfl
          omega
        have hroom' : (n * 10 + (d - 48).toNat + 1) * 10 ^ digits.length ≤ 10 ^ 6 := by
          refine Nat.le_trans (Nat.mul_le_mul_right _ ?_) (by
            rw [List.length_cons, Nat.pow_succ, Nat.mul_comm (10 ^ _) 10, ← Nat.mul_assoc] at hroom
            exact hroom)
          omega
        have hsmall : n * 10 + (d - 48).toNat + 1 ≤ 10 ^ 6 :=
          Nat.le_trans (Nat.le_mul_of_pos_right _ (Nat.pow_pos (by decide))) hroom'
        have hstep : digitStep false (some (n : Int)) d =
            some ((n * 10 + (d - 48).toNat : Nat) : Int) := by
          unfold digitStep checkedI64
          rw [Option.bind_some, if_pos (by unfold i64Min i64Max; omega), Option.bind_some,
            if_neg Bool.false_ne_true, if_pos (by unfold i64Min i64Max; omega)]
          rfl
        rw [List.foldl_cons, List.foldl_cons, hstep]
        exact ih hall.2 _ hroom'
  obtain ⟨d, ds, rfl⟩ := List.exists_cons_of_ne_nil hne
  obtain ⟨hspace, hminus, hplus⟩ := not_space_of_isDigit (hdigit d List.mem_cons_self)
  have hread : (d :: ds).foldl (digitStep false) (some 0) = some (number (d :: ds) : Int) :=
    hfold (d :: ds) hdigit 0 (by
      rw [Nat.zero_add, Nat.one_mul]
      exact Nat.pow_le_pow_right (by decide) hlen)
  have htake : (d :: ds).takeWhile isDigit = d :: ds := List.takeWhile_eq_self_iff.mpr hdigit
  have hdrop : (d :: ds).dropWhile isCSpace = d :: ds :=
    List.dropWhile_cons_of_neg (by simp [hspace])
  simp only [atoll, strtoll, hdrop, List.head?_cons, Option.some.injEq, hplus, hminus, or_self,
    if_false, List.drop_zero, htake, reduceCtorEq, decide_false]
  rw [hread, Option.getD_some]

/-- A mask is none of the modes. -/
theorem modesAgree_ban {is : Isupport} {s : Server} {c : Chan} {x : Change} (h : ModesAgree is s c)
    (hb : x.letter = byte 'b') (now : Int) (from324 : Bool) :
    ModesAgree is (s.change is x) (applyLetter is now from324 c x.adding x.letter x.arg) := by
  have hsame : SameModes is s (s.change is x) := by
    unfold Server.change
    rw [if_pos hb]
    cases x.arg with
    | none => exact ⟨fun _ _ => rfl, rfl, rfl⟩
    | some a =>
        rw [Option.elim_some]
        split
        · split <;> exact ⟨fun _ _ => rfl, rfl, rfl⟩
        · exact ⟨fun _ _ => rfl, rfl, rfl⟩
  refine (h.congr ?_ ?_ ?_).of_same hsame
  all_goals
    unfold applyLetter banAdd banDel
    rw [if_pos hb]
    repeat' split
    all_goals rfl

section

variable {is : Isupport} (hclasses : Classes is) {x : Change} (hx : x.Ok is) (now : Int)
  (from324 : Bool) {s : Server} {c : Chan}
include hclasses hx

/-- No argument of a well-formed line is missing. -/
theorem applyStep_eq (c : Chan) : applyStep is now from324 c ((x.adding, x.letter), x.arg) =
    applyLetter is now from324 c x.adding x.letter x.arg := by
  have htaken : (isupTakes is (x.adding, x.letter) && x.arg.isNone) = false := by
    by_cases htakes : x.Takes is
    · obtain ⟨a, ha, -⟩ := hx.takes htakes
      rw [ha]
      exact Bool.and_false _
    · have hnot := fun h => htakes ((modeHasArg_iff hclasses hx.letter).mp h)
      rw [isupTakes, Bool.eq_false_of_not_eq_true hnot, Bool.false_and]
  unfold applyStep
  rw [htaken]
  rfl

theorem modesAgree_key (h : ModesAgree is s c) (hk : x.letter = byte 'k') :
    ModesAgree is (s.change is x) (applyLetter is now from324 c x.adding x.letter x.arg) := by
  obtain ⟨a, ha, hshape⟩ := hx.takes (takes_key hclasses hk)
  have hchange : s.change is x = { s with key := if x.adding then x.arg else none } := by
    unfold Server.change
    rw [if_neg (hk ▸ by decide), if_pos hk]
  rw [hchange, hk, ha]
  cases hadding : x.adding with
  | true =>
      have hfits : a.length < maxKey := Nat.lt_succ_of_le (hshape.key hk hadding)
      rw [applyLetter_key, trunc_of_lt hfits]
      exact h.setKey hclasses (some a)
  | false =>
      rw [applyLetter_unkey]
      exact h.setKey hclasses none

theorem modesAgree_limit (h : ModesAgree is s c) (hl : x.letter = byte 'l') :
    ModesAgree is (s.change is x) (applyLetter is now from324 c x.adding x.letter x.arg) := by
  have hchange : s.change is x = { s with limit := if x.adding then x.arg.map number else none } := by
    unfold Server.change
    rw [if_neg (hl ▸ by decide), if_neg (hl ▸ by decide), if_pos hl]
  rw [hchange, hl]
  cases hadding : x.adding with
  | true =>
      obtain ⟨a, ha, hshape⟩ := hx.takes (takes_limit hclasses hl hadding)
      obtain ⟨hlen, hdigit⟩ := hshape.limit hl hadding
      have hdigits : allDigits a = true := by
        unfold allDigits
        rw [List.isEmpty_eq_false_iff.mpr hshape.word.ne_nil, decide_eq_true hlen,
          List.all_eq_true.mpr hdigit]
        rfl
      rw [ha, applyLetter_limit _ _ _ _ hdigits, atoll_digits hshape.word.ne_nil hlen hdigit]
      exact h.setLimit hclasses (some (number a))
  | false =>
      rw [applyLetter_unlimit]
      exact h.setLimit hclasses none

/-- **One letter moves the flags, the key and the limit** as it does at the server. -/
theorem modesAgree_step (h : ModesAgree is s c) : ModesAgree is (s.change is x)
    (applyLetter is now from324 c x.adding x.letter x.arg) := by
  by_cases hb : x.letter = byte 'b'
  · exact modesAgree_ban h hb now from324
  by_cases hk : x.letter = byte 'k'
  · exact modesAgree_key hclasses hx now from324 h hk
  by_cases hl : x.letter = byte 'l'
  · exact modesAgree_limit hclasses hx now from324 h hl
  by_cases htakes : x.Takes is
  · have hnone : x.letter ∉ is.cmD := by
      intro hD
      obtain ⟨hmember, hA, hB, hC⟩ := hclasses.notMem_settings hD
      rcases htakes with ht | ht | ht | ⟨ht, -⟩
      · exact hmember ht
      · exact hA ht
      · exact hB ht
      · exact hC ht
    have hchange : s.change is x = s := by
      unfold Server.change
      rw [if_neg hb, if_neg hk, if_neg hl, if_neg hnone]
    rw [hchange]
    exact h.of_live (live_applyLetter hb hk hl ((modeHasArg_iff hclasses hx.letter).mpr htakes) now
      from324 c x.arg)
  · have hbare : is.modeHasArg x.letter x.adding = false :=
      Bool.eq_false_of_not_eq_true fun hall => htakes ((modeHasArg_iff hclasses hx.letter).mp hall)
    rw [applyLetter_flag is now from324 c (hclasses.letters _ hx.letter) hb hk hl hbare]
    exact modesAgree_setLive hclasses h hx.letter hb hk hl

end

/-- A letter other than `b`, or one of a 324, leaves the ban list alone. -/
theorem bans_applyLetter (is : Isupport) (now : Int) {from324 : Bool} (c : Chan) (adding : Bool)
    {m : UInt8} (h : from324 = true ∨ m ≠ byte 'b') (a : Option Str) :
    (applyLetter is now from324 c adding m a).bans = c.bans := by
  unfold applyLetter
  split
  · rename_i hb
    rw [h.resolve_right (not_not_intro hb)]
    split <;> rfl
  · split
    · split <;> rfl
    · split
      · split
        · split <;> rfl
        · rfl
      · split
        · split
          · unfold withEntry
            split <;> rfl
          · rfl
        · split <;> rfl

theorem open_applyLetter (is : Isupport) (now : Int) (from324 : Bool) (c : Chan) (adding : Bool)
    (m : UInt8) (a : Option Str) :
    (applyLetter is now from324 c adding m a).banListOpen = c.banListOpen := by
  unfold applyLetter banAdd banDel withEntry
  repeat' split
  all_goals rfl

theorem any_eqIc {bans : List LiveBan} {a : Str} :
    (bans.any fun x => eqIc x.mask a) = decide (fold a ∈ bans.map (fold ·.mask)) := by
  rw [Bool.eq_iff_iff, List.any_eq_true, decide_eq_true_eq, List.mem_map]
  simp only [eqIc_iff, fold]

section

variable {is : Isupport} {s : Server} {c : Chan} {a : Str}

/-- `ban_add` where the server lists a new mask, or one it has already. -/
theorem bansAgree_add (h : BansAgree s c) (hword : Word a) (hlen : a.length < maxMaskLen)
    (hnew : fold a ∉ s.bans.map fold) (hroom : s.bans.length < is.banCap) (setter : Str)
    (when : Int) : BansAgree { s with bans := s.bans ++ [a] } (banAdd is c a setter when) := by
  have hnone : ¬ (c.bans.any fun x => eqIc x.mask a) = true := by
    rw [any_eqIc, decide_eq_true_eq, h.mem_iff]
    exact hnew
  have hshort : ¬ (a.isEmpty || decide (maxMaskLen ≤ a.length)) = true := by
    simp [hword.ne_nil, Nat.not_le.mpr hlen]
  unfold banAdd
  rw [if_neg hshort, if_neg hnone, if_neg (by rw [h.length_eq]; exact Nat.not_le.mpr hroom)]
  exact h.concat rfl hnew

/-- `ban_del`. -/
theorem bansAgree_del (h : BansAgree s c) (a : Str) :
    BansAgree { s with bans := s.bans.filter fun m => fold m ≠ fold a } (banDel c a) := by
  have hfilter := h.filter fun k => decide (k ≠ fold a)
  have hfind : (c.bans.findIdx? fun x => eqIc x.mask a) =
      c.bans.findIdx? fun x => fold x.mask = fold a := by
    congr 1
    funext x
    rw [Bool.eq_iff_iff, eqIc_iff, decide_eq_true_eq, fold, fold]
  unfold banDel
  rw [hfind]
  split
  · rename_i i hi
    obtain ⟨hlt, -, -⟩ := List.findIdx?_eq_some_iff_getElem.mp hi
    obtain ⟨last, hlast⟩ : ∃ last, c.bans.getLast? = some last := by
      rw [← Option.ne_none_iff_exists', ne_eq, List.getLast?_eq_none_iff]
      exact List.ne_nil_of_length_pos (Nat.zero_lt_of_lt hlt)
    refine hfilter.of_perm ?_
    unfold swapRemove
    rw [hlast]
    exact perm_swap_remove h.nodup_left hi hlast
  · rename_i hnone
    rw [List.findIdx?_eq_none_iff] at hnone
    have hself : (c.bans.filter fun x => decide (fold x.mask ≠ fold a)) = c.bans := by
      refine List.filter_eq_self.mpr fun x hx => ?_
      rw [decide_eq_true_eq]
      exact of_decide_eq_false (hnone x hx)
    rw [hself] at hfilter
    exact hfilter

end

/-- **One letter of a MODE line moves the ban list** as it does at the server. -/
theorem bansAgree_step {is : Isupport} (hclasses : Classes is) {x : Change} (hx : x.Ok is)
    (now : Int) {s : Server} {c : Chan} (h : BansAgree s c)
    (hroom : (s.change is x).bans.length ≤ is.banCap) :
    BansAgree (s.change is x) (applyLetter is now false c x.adding x.letter x.arg) := by
  by_cases hb : x.letter = byte 'b'
  · obtain ⟨a, ha, hshape⟩ := hx.takes (takes_ban hclasses hb)
    unfold Server.change at hroom ⊢
    unfold applyLetter
    rw [if_pos hb, ha, Option.elim_some] at hroom
    rw [if_pos hb, if_pos hb, ha, Option.elim_some]
    dsimp only
    rw [if_neg Bool.false_ne_true]
    by_cases hadding : x.adding = true
    · rw [if_pos hadding] at hroom ⊢
      rw [if_pos hadding]
      by_cases hold : ∃ m ∈ s.bans, fold m = fold a
      · have hany : (c.bans.any fun x => eqIc x.mask a) = true := by
          rw [any_eqIc, decide_eq_true_eq, h.mem_iff]
          exact List.mem_map.mpr hold
        rw [if_pos hold]
        unfold banAdd
        rw [if_pos hany, ite_self]
        exact h
      · rw [if_neg hold] at hroom ⊢
        rw [List.length_append, List.length_singleton] at hroom
        exact bansAgree_add h hshape.word (hshape.mask hb) (mt List.mem_map.mp hold) hroom [] now
    · rw [if_neg hadding, if_neg hadding]
      exact bansAgree_del h a
  · have hsame : (s.change is x).bans = s.bans := by
      unfold Server.change
      rw [if_neg hb]
      split
      · rfl
      · split
        · rfl
        · split <;> rfl
    unfold BansAgree
    rw [hsame, bans_applyLetter is now c x.adding (.inr hb)]
    exact h

/-! ### The letters of a line -/

section

variable {is : Isupport} (hclasses : Classes is) {modes : Str} {args : List Str} {xs : List Change}
include hclasses

/-- **Every letter finds its argument.** -/
theorem applyLoop_spells (hspells : Spells modes args xs) (hok : ∀ x ∈ xs, x.Ok is) (now : Int)
    (from324 : Bool) (c : Chan) :
    applyLoop is now from324 c true modes (tokens (paramStr args)) =
      xs.foldl (fun c x => applyLetter is now from324 c x.adding x.letter x.arg) c := by
  have hwords : ∀ w ∈ args, Word w := by
    intro w hw
    rw [hspells.args] at hw
    obtain ⟨x, hx, hw⟩ := List.mem_filterMap.mp hw
    by_cases htakes : x.Takes is
    · obtain ⟨a, ha, hshape⟩ := (hok x hx).takes htakes
      obtain rfl : w = a := Option.some.inj (hw.symm.trans ha)
      exact hshape.word
    · rw [(hok x hx).bare htakes] at hw
      cases hw
  have htaken : ∀ x ∈ xs, isupTakes is (x.adding, x.letter) = x.arg.isSome := by
    intro x hx
    by_cases htakes : x.Takes is
    · obtain ⟨a, ha, -⟩ := (hok x hx).takes htakes
      rw [isupTakes, (modeHasArg_iff hclasses (hok x hx).letter).mpr htakes, ha]
      rfl
    · rw [isupTakes, (hok x hx).bare htakes]
      exact Bool.eq_false_of_not_eq_true fun h =>
        htakes ((modeHasArg_iff hclasses (hok x hx).letter).mp h)
  have hargs : args = (xs.filter (·.arg.isSome)).map (·.arg.getD []) := by
    rw [hspells.args]
    clear hspells hwords htaken hok
    induction xs with
    | nil => rfl
    | cons x xs ih =>
        cases ha : x.arg with
        | none =>
            rw [List.filterMap_cons_none ha, List.filter_cons_of_neg (by simp [ha])]
            exact ih
        | some a =>
            rw [List.filterMap_cons_some ha, List.filter_cons_of_pos (by simp [ha]), List.map_cons,
              ha, ← ih]
            rfl
  have hassign : Lib.ArgWalk.assign (isupTakes is) (signed true modes) args =
      xs.map fun x => ((x.adding, x.letter), x.arg) := by
    rw [hspells.letters, hargs, Lib.ArgWalk.assign_map _ _ _ _ _ htaken]
    refine List.map_congr_left fun x _ => ?_
    cases x.arg <;> simp
  rw [applyLoop_eq, tokens_paramStr hwords, hassign, List.foldl_map]
  refine List.foldl_rel (r := Eq) rfl fun x hx c c' hc => ?_
  rw [hc]
  exact applyStep_eq hclasses (hok x hx) now from324 c'

theorem modesAgree_foldl (hok : ∀ x ∈ xs, x.Ok is) (now : Int) (from324 : Bool) :
    ∀ {s : Server} {c : Chan}, ModesAgree is s c → ModesAgree is (xs.foldl (Server.change is) s)
      (xs.foldl (fun c x => applyLetter is now from324 c x.adding x.letter x.arg) c) := by
  intro s c h
  refine List.foldl_rel (r := ModesAgree is) h fun x hx s c h => ?_
  exact modesAgree_step hclasses (hok x hx) now from324 h

theorem bansAgree_foldl (now : Int) : ∀ {xs : List Change} {s : Server} {c : Chan},
    Goes is s xs → BansAgree s c → BansAgree (xs.foldl (Server.change is) s)
      (xs.foldl (fun c x => applyLetter is now false c x.adding x.letter x.arg) c) := by
  intro xs
  induction xs with
  | nil => exact fun _ h => h
  | cons x xs ih =>
      rintro s c ⟨hx, hroom, hgoes⟩ h
      exact ih hgoes (bansAgree_step hclasses hx now h hroom)

end

theorem Goes.ok {is : Isupport} :
    ∀ {xs : List Change} {s : Server}, Goes is s xs → ∀ x ∈ xs, x.Ok is
  | _ :: _, _, ⟨hx, _, hgoes⟩ => List.forall_mem_cons.mpr ⟨hx, hgoes.ok⟩
  | [], _, _ => by simp

/-- The server's ban list stays one. -/
theorem Server.Ok.foldl {is : Isupport} (hclasses : Classes is) {xs : List Change} :
    ∀ {s : Server}, s.Ok is → Goes is s xs → (xs.foldl (Server.change is) s).Ok is := by
  induction xs with
  | nil => exact fun h _ => h
  | cons x xs ih =>
      rintro s h ⟨hx, hroom, hgoes⟩
      refine ih ?_ hgoes
      by_cases hb : x.letter = byte 'b'
      · obtain ⟨a, ha, hshape⟩ := hx.takes (takes_ban hclasses hb)
        refine ⟨?_, ?_, hroom⟩
        all_goals
          unfold Server.change
          rw [if_pos hb, ha, Option.elim_some]
        · split
          · split
            · exact h.distinct
            · rename_i hnew
              rw [List.map_append, List.map_singleton]
              exact List.nodup_append_comm.mp (List.nodup_cons.mpr ⟨mt List.mem_map.mp hnew, h.distinct⟩)
          · exact h.distinct.sublist (List.filter_sublist.map fold)
        · split
          · split
            · exact h.mask
            · rw [List.forall_mem_append]
              exact ⟨h.mask, List.forall_mem_singleton.mpr ⟨hshape.word, hshape.mask hb⟩⟩
          · exact fun m hm => h.mask m (List.mem_of_mem_filter hm)
      · have hsame : (s.change is x).bans = s.bans := by
          unfold Server.change
          rw [if_neg hb]
          repeat' split
          all_goals rfl
        exact ⟨hsame ▸ h.distinct, hsame ▸ h.mask, hroom⟩

end IrcBot.ServerModes

/-
# The `mode` job converges (`chanlive.rs`)

`mode_sync` compares the live modes with the stored ones, letter by letter, and queues the
changes between them; `apply` takes in what the server reports of them. The two are written
separately, so that a disagreement would have the bot set modes without end.

* `settles_letterChanges` — the changes of one letter do their work, and leave the others be.
* `modeSync_converges` — with the changes reported back, nothing is left to change; and a dry
  run counts none exactly when a real one queues none.
-/
import IrcBot.Chancmd
import IrcBot.Nicks
import IrcBot.Lib.OneRound
import IrcBot.LiveModes

namespace IrcBot.ModeSync

set_option maxRecDepth 4000

open Cstr Chancfg Chanlive Chancmd LiveModes Nicks Lib.OneRound

/-! ### The plan, letter by letter -/

/-- The letters in the order in which the job goes through them. -/
def planned (skipLimit : Bool) : Str := str "imnpstk" ++ if skipLimit then [] else str "l"

/-- What the job queues for one letter. -/
def letterChanges (dir : UInt8 → Option Bool) (want : Int) (m : UInt8) (c : Chan) : List Str :=
  if m = byte 'k' then keyChanges c dir
  else if m = byte 'l' then limitChanges c dir want
  else flagChanges c dir m

theorem plans_letterChanges (c : Chan) (dir : UInt8 → Option Bool) (want : Int) (skipLimit : Bool) :
    plans (letterChanges dir want) (planned skipLimit) c =
      (str "imnpst").flatMap (flagChanges c dir) ++ keyChanges c dir ++
        (if skipLimit then [] else limitChanges c dir want) := by
  have hflags : (str "imnpst").flatMap (fun m => letterChanges dir want m c) =
      (str "imnpst").flatMap (flagChanges c dir) := by
    refine List.flatMap_congr fun m hm => ?_
    have hk : m ≠ byte 'k' := by rintro rfl; revert hm; decide
    have hl : m ≠ byte 'l' := by rintro rfl; revert hm; decide
    unfold letterChanges
    rw [if_neg hk, if_neg hl]
  have hplanned : planned skipLimit =
      str "imnpst" ++ [byte 'k'] ++ if skipLimit then [] else [byte 'l'] := by
    cases skipLimit <;> rfl
  unfold plans
  rw [hplanned, List.flatMap_append, List.flatMap_append, hflags, List.flatMap_singleton]
  cases skipLimit with
  | true => rfl
  | false => rw [if_neg Bool.false_ne_true, if_neg Bool.false_ne_true, List.flatMap_singleton]; rfl

/-! ### The report of a change -/

/-- The letters and the arguments of a change. -/
def changeModes (change : Str) : Str := change.takeWhile (· ≠ byte ' ')
def changeArgs (change : Str) : Str := change.dropWhile (· ≠ byte ' ')

/-- A channel after the server has reported a change. -/
def echoChan (is : Isupport) (now : Int) (c : Chan) (change : Str) : Chan :=
  applyLoop is now false c true (changeModes change) (tokens (changeArgs change))

/-- What the server says of the modes the bots manage: `k` always takes an argument, `l` when
it is set, the others never. -/
structure ModesOk (is : Isupport) : Prop where
  key : ∀ adding, is.modeHasArg (byte 'k') adding = true
  limit : ∀ adding, is.modeHasArg (byte 'l') adding = adding
  flag : ∀ m ∈ str "imnpst", ∀ adding, is.modeHasArg m adding = false

theorem tokens_one {w : Str} (hne : w ≠ []) (hspace : byte ' ' ∉ w) :
    tokens (byte ' ' :: w) = [w] := by
  unfold tokens
  have hsplit : splitOn (byte ' ') (byte ' ' :: w) = [[], w] := by
    rw [← splitOn_of_notMem hspace]
    exact splitOn_append List.not_mem_nil w
  rw [hsplit]
  simp [hne]

/-- A limit in range prints as digits, no more than five, and is read back. -/
theorem dec_limit {n : Int} (hpos : 1 ≤ n) (hmax : n ≤ 99999) :
    allDigits (dec n) = true ∧ atoll (dec n) = n ∧ dec n ≠ [] ∧ byte ' ' ∉ dec n := by
  have hdec : dec n = decNat n.natAbs := by
    unfold dec
    rw [if_neg (by omega)]
  have hne : dec n ≠ [] := hdec ▸ decNat_ne_nil n.natAbs
  have hdigit (c : UInt8) (hc : c ∈ dec n) : isDigit c = true :=
    isDigit_of_mem_decNat (hdec ▸ hc)
  refine ⟨?_, ?_, hne, fun hspace => absurd (hdigit _ hspace) (by decide)⟩
  · have hlen : (dec n).length ≤ 6 := by
      rw [hdec, decNat, List.length_map, Nat.length_toDigits_le_iff (by decide) (by decide)]
      omega
    unfold allDigits
    rw [List.isEmpty_eq_false_iff.mpr hne, decide_eq_true hlen, List.all_eq_true.mpr hdigit]
    rfl
  · have hread := @strtoll_dec n (by unfold i64Min; omega) (by unfold i64Max; omega) [] (by simp)
    rw [List.append_nil] at hread
    rw [atoll, hread]

section Echo

variable {is : Isupport} (hmodes : ModesOk is) (now : Int) (c : Chan)
include hmodes

theorem echo_flag {m : UInt8} (hm : m ∈ str "imnpst") (adding : Bool) :
    echoChan is now c [if adding then byte '+' else byte '-', m] = setLive c m adding := by
  have hne : m ≠ byte 'b' ∧ m ≠ byte 'k' ∧ m ≠ byte 'l' ∧ m ≠ byte '+' ∧ m ≠ byte '-' ∧
      m ≠ byte ' ' ∧ isAlpha m = true := by
    revert hm
    revert m
    decide
  obtain ⟨hb, hk, hl, hplus, hminus, hspace, halpha⟩ := hne
  have hletters : changeModes [if adding then byte '+' else byte '-', m] =
      [if adding then byte '+' else byte '-', m] := by
    have hsign (adding : Bool) : (if adding then byte '+' else byte '-') ≠ byte ' ' := by
      cases adding <;> decide
    unfold changeModes
    rw [List.takeWhile_eq_self_iff]
    intro x hx
    rcases List.mem_cons.mp hx with rfl | hx
    · exact decide_eq_true (hsign adding)
    · rw [List.mem_singleton] at hx
      exact decide_eq_true (hx ▸ hspace)
  unfold echoChan
  rw [hletters]
  have hwalk (adding : Bool) (args : List Str) :
      applyLoop is now false c adding [m] args = setLive c m adding := by
    rw [applyLoop, if_neg hplus, if_neg hminus, hmodes.flag m hm adding,
      if_neg Bool.false_ne_true, applyLoop,
      applyLetter_flag is now false c halpha hb hk hl (hmodes.flag m hm adding)]
  cases adding with
  | true => exact hwalk true _
  | false => exact hwalk false _

/-- One letter that takes an argument, as the walk treats it. -/
theorem applyLoop_arg {m : UInt8} (hm : m = byte 'k' ∨ m = byte 'l') {adding : Bool}
    (harg : m = byte 'l' → adding = true) (a : Str) :
    applyLoop is now false c adding [m] [a] = applyLetter is now false c adding m (some a) := by
  have htakes : is.modeHasArg m adding = true := by
    rcases hm with rfl | rfl
    · exact hmodes.key adding
    · rw [hmodes.limit, harg rfl]
  have hsign : m ≠ byte '+' ∧ m ≠ byte '-' := by rcases hm with rfl | rfl <;> decide
  rw [applyLoop, if_neg hsign.1, if_neg hsign.2, if_pos htakes]
  rfl

theorem echo_key {k : Str} (hne : k ≠ []) (hspace : byte ' ' ∉ k) (hlen : k.length < maxKey) :
    echoChan is now c (str "+k " ++ k) = { setLive c (byte 'k') true with liveKey := k } := by
  have hargs : tokens (changeArgs (str "+k " ++ k)) = [k] := tokens_one hne hspace
  unfold echoChan
  rw [hargs]
  refine (applyLoop_arg hmodes now c (.inl rfl) (fun h => absurd h (by decide)) k).trans ?_
  rw [applyLetter_key, trunc_of_lt hlen]

theorem echo_unkey (k : Str) :
    echoChan is now c (str "-k " ++ k) = { setLive c (byte 'k') false with liveKey := [] } := by
  have htakes := hmodes.key false
  have hwalk (args : List Str) : applyLoop is now false c false [byte 'k'] args =
      { setLive c (byte 'k') false with liveKey := [] } := by
    rw [applyLoop, if_neg (by decide), if_neg (by decide), if_pos htakes]
    cases args <;> rfl
  exact hwalk _

theorem echo_limit {n : Int} (hpos : 1 ≤ n) (hmax : n ≤ 99999) :
    echoChan is now c (str "+l " ++ dec n) =
      { setLive c (byte 'l') true with liveLimit := n } := by
  obtain ⟨hdigits, hread, hne, hspace⟩ := dec_limit hpos hmax
  have hargs : tokens (changeArgs (str "+l " ++ dec n)) = [dec n] := tokens_one hne hspace
  unfold echoChan
  rw [hargs]
  refine (applyLoop_arg hmodes now c (.inr rfl) (fun _ => rfl) (dec n)).trans ?_
  rw [applyLetter_limit is now false c hdigits, hread]

theorem echo_unlimit :
    echoChan is now c (str "-l") = { setLive c (byte 'l') false with liveLimit := 0 } := by
  have htakes := hmodes.limit false
  change applyLoop is now false c false [byte 'l'] _ = _
  rw [applyLoop, if_neg (by decide), if_neg (by decide), htakes, if_neg Bool.false_ne_true]
  rfl

end Echo

/-! ### One letter at a time -/

/-- The bounds that the key of a channel keeps, and what is known of its live modes. -/
structure Ready (c : Chan) : Prop where
  known : c.liveKnown = true
  key : c.key.length < maxKey

/-- Such a channel, the same as `c₀` up to its live modes. -/
structure ReadyFrom (c₀ c : Chan) : Prop extends Ready c where
  rest : ∃ fl k n, c = { c₀ with liveFlags := fl, liveKey := k, liveLimit := n }

/-- From `c` to `c'` only what belongs to the letter `m` has changed. -/
structure OnlyLetter (m : UInt8) (c c' : Chan) : Prop where
  rest : ∃ fl k n, c' = { c with liveFlags := fl, liveKey := k, liveLimit := n }
  others : ∀ q, isAlpha q = true → q ≠ m → liveHas c' q = liveHas c q
  key : m ≠ byte 'k' → c'.liveKey = c.liveKey
  limit : m ≠ byte 'l' → c'.liveLimit = c.liveLimit

theorem OnlyLetter.refl (m : UInt8) (c : Chan) : OnlyLetter m c c :=
  ⟨⟨_, _, _, rfl⟩, fun _ _ _ => rfl, fun _ => rfl, fun _ => rfl⟩

theorem OnlyLetter.trans {m : UInt8} {c c' c'' : Chan} (h : OnlyLetter m c c')
    (h' : OnlyLetter m c' c'') : OnlyLetter m c c'' := by
  obtain ⟨⟨fl, k, n, rfl⟩, hothers, hkey, hlimit⟩ := h
  obtain ⟨⟨fl', k', n', rfl⟩, hothers', hkey', hlimit'⟩ := h'
  exact ⟨⟨fl', k', n', rfl⟩, fun q hq hne => (hothers' q hq hne).trans (hothers q hq hne),
    fun hne => (hkey' hne).trans (hkey hne), fun hne => (hlimit' hne).trans (hlimit hne)⟩

/-- A letter is set or cleared, with the key or the limit if it is theirs. -/
theorem onlyLetter_setLive (c : Chan) {m : UInt8} (hm : isAlpha m = true) (adding : Bool)
    {k : Str} {n : Int} (hk : m ≠ byte 'k' → k = c.liveKey) (hl : m ≠ byte 'l' → n = c.liveLimit) :
    OnlyLetter m c { setLive c m adding with liveKey := k, liveLimit := n } := by
  refine ⟨⟨_, k, n, rfl⟩, fun q hq hne => ?_, hk, hl⟩
  have hset := liveHas_setLive c hm hq adding
  rw [if_neg hne] at hset
  exact hset

theorem ready_of_onlyLetter {m : UInt8} {c₀ c c' : Chan} (h : OnlyLetter m c c')
    (hc : ReadyFrom c₀ c) : ReadyFrom c₀ c' := by
  obtain ⟨fl, k, n, rfl⟩ := h.rest
  obtain ⟨fl', k', n', rfl⟩ := hc.rest
  exact ⟨⟨hc.known, hc.key⟩, fl, k, n, rfl⟩

/-- The plan of a letter reads nothing that belongs to another. -/
theorem letterChanges_congr (dir : UInt8 → Option Bool) (want : Int) {m q : UInt8} {c c' : Chan}
    (h : OnlyLetter m c c') (hq : q ∈ str "imnpstkl") (hne : m ≠ q) :
    letterChanges dir want q c' = letterChanges dir want q c := by
  have halpha : ∀ q ∈ str "imnpstkl", isAlpha q = true := forall_of_all (by decide)
  have hhas := h.others q (halpha q hq) (Ne.symm hne)
  obtain ⟨fl, k, n, hc'⟩ := h.rest
  have hknown : c'.liveKnown = c.liveKnown := by rw [hc']
  have hchan : c'.key = c.key := by rw [hc']
  unfold letterChanges
  by_cases hk : q = byte 'k'
  · rw [if_pos hk, if_pos hk]
    rw [hk] at hhas hne
    unfold keyChanges
    rw [hhas, h.key hne, hknown, hchan]
  · rw [if_neg hk, if_neg hk]
    by_cases hl : q = byte 'l'
    · rw [if_pos hl, if_pos hl]
      rw [hl] at hhas hne
      unfold limitChanges
      rw [hhas, h.limit hne, hknown]
    · rw [if_neg hl, if_neg hl]
      unfold flagChanges
      rw [hhas, hknown]

/-- The changes `m` of a channel do their work, and no other letter's. -/
def Works (is : Isupport) (now : Int) (plan : Chan → List Str) (m : UInt8) (c : Chan) : Prop :=
  OnlyLetter m c ((plan c).foldl (echoChan is now) c) ∧
    plan ((plan c).foldl (echoChan is now) c) = []

theorem works_of_nil {is : Isupport} {now : Int} {plan : Chan → List Str} {m : UInt8} {c : Chan}
    (h : plan c = []) : Works is now plan m c := by
  unfold Works
  rw [h]
  exact ⟨.refl m c, h⟩

theorem works_of_plan {is : Isupport} {now : Int} {plan : Chan → List Str} {m : UInt8}
    {c c' : Chan} {changes : List Str} (hplan : plan c = changes)
    (hecho : changes.foldl (echoChan is now) c = c') (honly : OnlyLetter m c c')
    (hdone : plan c' = []) : Works is now plan m c := by
  unfold Works
  rw [hplan, hecho]
  exact ⟨honly, hdone⟩

section Works

variable {is : Isupport} (hmodes : ModesOk is) (now : Int) (dir : UInt8 → Option Bool)
include hmodes

theorem works_flag {c : Chan} (hc : Ready c) {m : UInt8} (hm : m ∈ str "imnpst") :
    Works is now (flagChanges · dir m) m c := by
  have hall : ∀ m ∈ str "imnpst", isAlpha m = true := forall_of_all (by decide)
  have halpha := hall m hm
  have hdone (adding : Bool) : OnlyLetter m c (setLive c m adding) :=
    onlyLetter_setLive c halpha adding (fun _ => rfl) fun _ => rfl
  have hset (adding : Bool) : liveHas (setLive c m adding) m = adding := by
    rw [liveHas_setLive c halpha halpha, if_pos rfl]
  cases hdir : dir m with
  | none => exact works_of_nil (by unfold flagChanges; rw [hdir])
  | some adding =>
      by_cases hlive : liveHas c m = adding
      · refine works_of_nil ?_
        unfold flagChanges
        rw [hdir, hc.known]
        cases adding <;> simp [hlive]
      · have hplan : flagChanges c dir m = [[if adding then byte '+' else byte '-', m]] := by
          unfold flagChanges
          rw [hdir, hc.known]
          cases adding <;> simp_all
        refine works_of_plan hplan (echo_flag hmodes now c hm adding) (hdone adding) ?_
        unfold flagChanges
        rw [hdir, hset adding, show (setLive c m adding).liveKnown = true from hc.known]
        cases adding <;> rfl

theorem works_limit {c : Chan} (hc : Ready c) {want : Int}
    (hwant : dir (byte 'l') = some true → 1 ≤ want ∧ want ≤ 99999) :
    Works is now (limitChanges · dir want) (byte 'l') c := by
  have hdone (adding : Bool) (n : Int) :
      OnlyLetter (byte 'l') c { setLive c (byte 'l') adding with liveLimit := n } :=
    onlyLetter_setLive c (by decide) adding (fun _ => rfl) fun h => absurd rfl h
  have hset (adding : Bool) (n : Int) :
      liveHas { setLive c (byte 'l') adding with liveLimit := n } (byte 'l') = adding :=
    (liveHas_setLive c (by decide) (by decide) adding).trans (if_pos rfl)
  cases hdir : dir (byte 'l') with
  | none => exact works_of_nil (by unfold limitChanges; rw [hdir])
  | some adding =>
      cases adding with
      | true =>
          obtain ⟨hpos, hmax⟩ := hwant hdir
          by_cases hlive : (!liveHas c (byte 'l') || c.liveLimit != want) = true
          · have hplan : limitChanges c dir want = [str "+l " ++ dec want] := by
              unfold limitChanges
              rw [hdir, hc.known]
              exact if_pos hlive
            refine works_of_plan hplan (echo_limit hmodes now c hpos hmax) (hdone true want) ?_
            unfold limitChanges
            rw [hdir, hset true want]
            simp [setLive, hc.known]
          · refine works_of_nil ?_
            unfold limitChanges
            rw [hdir, hc.known]
            exact if_neg hlive
      | false =>
          by_cases hlive : liveHas c (byte 'l') = true
          · have hplan : limitChanges c dir want = [str "-l"] := by
              unfold limitChanges
              rw [hdir, hc.known]
              exact if_pos hlive
            refine works_of_plan hplan (echo_unlimit hmodes now c) (hdone false 0) ?_
            unfold limitChanges
            rw [hdir, hset false 0]
            simp [setLive, hc.known]
          · refine works_of_nil ?_
            unfold limitChanges
            rw [hdir, hc.known]
            exact if_neg hlive

theorem works_key {c : Chan} (hc : Ready c) : Works is now (keyChanges · dir) (byte 'k') c := by
  have hdone (c : Chan) (adding : Bool) (k : Str) :
      OnlyLetter (byte 'k') c { setLive c (byte 'k') adding with liveKey := k } :=
    onlyLetter_setLive c (by decide) adding (fun h => absurd rfl h) fun _ => rfl
  have hset (c : Chan) (adding : Bool) (k : Str) :
      liveHas { setLive c (byte 'k') adding with liveKey := k } (byte 'k') = adding :=
    (liveHas_setLive c (by decide) (by decide) adding).trans (if_pos rfl)
  cases hdir : dir (byte 'k') with
  | none => exact works_of_nil (by unfold keyChanges; rw [hdir])
  | some adding =>
      cases adding with
      | true =>
          by_cases hplan : ((!c.key.isEmpty && !c.key.any fun x => (str " ,\r\n\t").contains x) &&
              (!liveHas c (byte 'k') || c.liveKey != c.key)) = true
          · rw [Bool.and_eq_true, Bool.and_eq_true] at hplan
            obtain ⟨hok, hdiffers⟩ := hplan
            obtain ⟨hne, hany⟩ := hok
            have hkey : c.key ≠ [] := by
              rw [Bool.not_eq_true', List.isEmpty_eq_false_iff] at hne
              exact hne
            have hspace : byte ' ' ∉ c.key := by
              intro h
              rw [Bool.not_eq_true', List.any_eq_false] at hany
              exact hany _ h (by decide)
            have hplan (old : Bool) (hold : (liveHas c (byte 'k') && !c.liveKey.isEmpty &&
                c.liveKey != str "*" && c.liveKey != c.key) = old) : keyChanges c dir =
                (if old then [str "-k " ++ c.liveKey] else []) ++ [str "+k " ++ c.key] := by
              unfold keyChanges
              rw [hdir, hc.known]
              dsimp only
              rw [hne, hany, hold]
              exact if_pos hdiffers
            have hfin (d : Chan) (hd : d.key = c.key) (hknown : d.liveKnown = true) : keyChanges
                { setLive d (byte 'k') true with liveKey := c.key } dir = [] := by
              unfold keyChanges
              rw [hdir, hset d true c.key]
              simp [setLive, hd, hknown]
            cases hold : (liveHas c (byte 'k') && !c.liveKey.isEmpty &&
                c.liveKey != str "*" && c.liveKey != c.key) with
            | true =>
                refine works_of_plan (hplan true hold) ?_
                  ((hdone c false []).trans (hdone _ true c.key)) (hfin _ rfl hc.known)
                change echoChan is now (echoChan is now c (str "-k " ++ c.liveKey))
                  (str "+k " ++ c.key) = _
                rw [echo_unkey hmodes now c]
                exact echo_key hmodes now _ hkey hspace hc.key
            | false =>
                refine works_of_plan (hplan false hold) ?_ (hdone c true c.key) (hfin c rfl hc.known)
                exact echo_key hmodes now c hkey hspace hc.key
          · refine works_of_nil ?_
            unfold keyChanges
            rw [hdir, hc.known]
            exact if_neg hplan
      | false =>
          by_cases hshown : (liveHas c (byte 'k') && !c.liveKey.isEmpty && c.liveKey != str "*") = true
          · have hplan : keyChanges c dir = [str "-k " ++ c.liveKey] := by
              unfold keyChanges
              rw [hdir, hc.known]
              exact if_pos hshown
            refine works_of_plan hplan (echo_unkey hmodes now c c.liveKey) (hdone c false []) ?_
            unfold keyChanges
            rw [hdir]
            simp
          · refine works_of_nil ?_
            unfold keyChanges
            rw [hdir, hc.known]
            exact if_neg hshown

end Works

/-- **The letters settle one by one.** -/
theorem settles_letterChanges {is : Isupport} (hmodes : ModesOk is) (now : Int)
    (dir : UInt8 → Option Bool) {want : Int}
    (hwant : dir (byte 'l') = some true → 1 ≤ want ∧ want ≤ 99999) (c₀ : Chan) :
    Settles (echoChan is now) (letterChanges dir want) (ReadyFrom c₀)
      { m | m ∈ str "imnpstkl" } := by
  have hworks (m : UInt8) (hm : m ∈ str "imnpstkl") (c : Chan) (hc : Ready c) :
      Works is now (letterChanges dir want m) m c := by
    by_cases hk : m = byte 'k'
    · have hplan : letterChanges dir want m = (keyChanges · dir) := by
        funext c
        unfold letterChanges
        rw [if_pos hk]
      rw [hplan, hk]
      exact works_key hmodes now dir hc
    · by_cases hl : m = byte 'l'
      · have hplan : letterChanges dir want m = (limitChanges · dir want) := by
          funext c
          unfold letterChanges
          rw [if_neg hk, if_pos hl]
        rw [hplan, hl]
        exact works_limit hmodes now dir hc hwant
      · have hplan : letterChanges dir want m = (flagChanges · dir m) := by
          funext c
          unfold letterChanges
          rw [if_neg hk, if_neg hl]
        rw [hplan]
        refine works_flag hmodes now dir hc ?_
        change m ∈ str "imnpst" ++ [byte 'k', byte 'l'] at hm
        rcases List.mem_append.mp hm with hm | hm
        · exact hm
        · rcases List.mem_cons.mp hm with h | h
          · exact absurd h hk
          · exact absurd (List.mem_singleton.mp h) hl
  exact ⟨fun m hm c hc => ready_of_onlyLetter (hworks m hm c hc.toReady).1 hc,
    fun m hm c hc => (hworks m hm c hc.toReady).2,
    fun m hm q hq hne c hc => letterChanges_congr dir want (hworks m hm c hc.toReady).1 hq hne⟩

/-! ### The stored modes -/

/-- What the walk over an accepted mode string has made of it so far. -/
structure WalkOk (w : ModeWalk) (dir : UInt8 → Option Bool) : Prop where
  /-- The letters are read back by the job. -/
  parse : ∀ rest, parseStored (fun _ => none) true (w.letters ++ rest) =
    parseStored dir (w.sign != some (byte '-')) rest
  space : byte ' ' ∉ w.letters
  limit : dir (byte 'l') = some true → 1 ≤ w.limit ∧ w.limit ≤ 99999
  unlimited : dir (byte 'l') ≠ some true → w.limit = 0
  seen : byte 'l' ∉ w.seen → dir (byte 'l') = none

theorem walkOk_start (args : List Str) : WalkOk { args } fun _ => none :=
  ⟨fun _ => rfl, List.not_mem_nil, (nomatch ·), fun _ => rfl, fun _ => rfl⟩

/-- A letter with its sign goes to the end of what is stored. -/
theorem WalkOk.parse_letter {w : ModeWalk} {dir : UInt8 → Option Bool} (h : WalkOk w dir)
    {m : UInt8} (hm : m ∈ str "imnpstkl") (adding : Bool) (rest : Str) :
    parseStored (fun _ => none) true
      ((if w.sign != some (if adding then byte '+' else byte '-') then
        w.letters ++ [if adding then byte '+' else byte '-'] else w.letters) ++ [m] ++ rest) =
      parseStored (fun x => if x = m then some adding else dir x) adding rest := by
  have hsigns : ∀ m ∈ str "imnpstkl", m ≠ byte '+' ∧ m ≠ byte '-' := forall_of_all (by decide)
  obtain ⟨hplus, hminus⟩ := hsigns m hm
  have hcontains : (str "imnpstkl").contains m = true := List.contains_iff_mem.mpr hm
  have hletter (a : Bool) : parseStored dir a (m :: rest) =
      parseStored (fun x => if x = m then some a else dir x) a rest := by
    rw [parseStored, if_neg hplus, if_neg hminus, if_pos hcontains]
  by_cases hsame : w.sign = some (if adding then byte '+' else byte '-')
  · rw [hsame, bne_self_eq_false, if_neg Bool.false_ne_true, List.append_assoc, h.parse, hsame]
    have hdir : (some (if adding then byte '+' else byte '-') != some (byte '-')) = adding := by
      cases adding <;> decide
    rw [hdir]
    exact hletter adding
  · rw [if_pos (bne_iff_ne.mpr hsame), List.append_assoc, List.append_assoc, h.parse]
    have hsign : parseStored dir (w.sign != some (byte '-'))
        ([if adding then byte '+' else byte '-'] ++ ([m] ++ rest)) =
        parseStored dir adding (m :: rest) := by
      cases adding <;> rfl
    rw [hsign]
    exact hletter adding

theorem limitArg_bounds {a : Str} {v : Int} (h : limitArg a = some v) : 1 ≤ v ∧ v ≤ 99999 := by
  unfold limitArg at h
  dsimp only at h
  rw [Option.ite_none_right_eq_some] at h
  obtain ⟨hbounds, hread⟩ := h
  simp only [Bool.and_eq_true, decide_eq_true_eq] at hbounds
  rw [Option.some.injEq] at hread
  exact hread ▸ ⟨hbounds.1.2, hbounds.2⟩

/-- What a letter makes of its argument. -/
theorem modeArg_ok {w w' : ModeWalk} {adding : Bool} {m : UInt8} (h : modeArg w adding m = .ok w') :
    (m = byte 'k' ∧ adding = false ∧ w' = { w with keyClear := true }) ∨
    (m = byte 'k' ∧ adding = true ∧ ∃ k rest, w.args = k :: rest ∧ w' = { w with key := some k, args := rest }) ∨
    (m = byte 'l' ∧ adding = true ∧ ∃ a rest v, w.args = a :: rest ∧ limitArg a = some v ∧
      w' = { w with limit := v, args := rest }) ∨
    (m ≠ byte 'k' ∧ ¬ (m = byte 'l' ∧ adding = true) ∧ w' = w) := by
  unfold modeArg at h
  split at h
  · rename_i hk
    exact .inl ⟨hk.1, by simpa using hk.2, (Except.ok.inj h).symm⟩
  · rename_i hnotClear
    split at h
    · rename_i hk
      split at h
      · rename_i k hkey
        obtain ⟨hhead, -⟩ := Option.filter_eq_some_iff.mp hkey
        obtain ⟨rest, hargs⟩ := List.head?_eq_some_iff.mp hhead
        refine .inr (.inl ⟨hk, by simpa [hk] using hnotClear, k, rest, hargs, ?_⟩)
        rw [← Except.ok.inj h, hargs, List.drop_one, List.tail_cons]
      · cases h
    · rename_i hk
      split at h
      · rename_i hl
        split at h
        · cases h
        · rename_i a rest hargs
          split at h
          · rename_i v hv
            exact .inr (.inr (.inl ⟨hl.1, hl.2, a, rest, v, hargs, hv, (Except.ok.inj h).symm⟩))
          · cases h
      · rename_i hl
        exact .inr (.inr (.inr ⟨hk, hl, (Except.ok.inj h).symm⟩))

/-- The argument of a letter changes the limit for `+l` only. -/
theorem modeArg_cases {w w' : ModeWalk} {adding : Bool} {m : UInt8}
    (h : modeArg w adding m = .ok w') :
    w'.letters = w.letters ∧ w'.sign = w.sign ∧ w'.seen = w.seen ∧
      (if m = byte 'l' ∧ adding = true then 1 ≤ w'.limit ∧ w'.limit ≤ 99999
        else w'.limit = w.limit) := by
  rcases modeArg_ok h with
    ⟨rfl, -, rfl⟩ | ⟨rfl, -, k, rest, -, rfl⟩ | ⟨rfl, rfl, a, rest, v, -, hv, rfl⟩ |
    ⟨-, hl, rfl⟩
  · rw [if_neg fun hl => absurd hl.1 (by decide)]
    exact ⟨rfl, rfl, rfl, rfl⟩
  · rw [if_neg fun hl => absurd hl.1 (by decide)]
    exact ⟨rfl, rfl, rfl, rfl⟩
  · rw [if_pos ⟨rfl, rfl⟩]
    exact ⟨rfl, rfl, rfl, limitArg_bounds hv⟩
  · rw [if_neg hl]
    exact ⟨rfl, rfl, rfl, rfl⟩

/-- The sign that a letter needs ahead of it. -/
def wanted (adding : Bool) : UInt8 := if adding then byte '+' else byte '-'

/-- The walk with a letter taken up, before its argument. -/
def takeUp (w : ModeWalk) (adding : Bool) (m : UInt8) : ModeWalk :=
  { w with
    seen := m :: w.seen
    letters := (if w.sign != some (wanted adding) then w.letters ++ [wanted adding] else w.letters) ++ [m]
    sign := some (wanted adding)
    plusS := w.plusS || (adding && m == byte 's')
    plusP := w.plusP || (adding && m == byte 'p') }

theorem modeLoop_cons {w w' : ModeWalk} {adding : Bool} {m : UInt8} {ms : Str}
    (h : modeLoop w adding (m :: ms) = .ok w') :
    ((m = byte '+' ∨ m = byte '-') ∧ modeLoop w (m = byte '+') ms = .ok w') ∨
      (m ∈ str "imnpstkl" ∧ m ∉ w.seen ∧ ∃ w₁, modeArg (takeUp w adding m) adding m = .ok w₁ ∧
        modeLoop w₁ adding ms = .ok w') := by
  rw [modeLoop] at h
  split at h
  · rename_i hsign
    exact .inl ⟨hsign, h⟩
  · split at h
    · cases h
    · rename_i hm
      rw [Bool.not_eq_true', Bool.not_eq_false] at hm
      split at h
      · cases h
      · rename_i hseen
        split at h
        · cases h
        · dsimp only at h
          split at h
          · cases h
          · rename_i w₁ harg
            rw [List.contains_iff_mem] at hseen
            exact .inr ⟨List.contains_iff_mem.mp hm, hseen, w₁, harg, h⟩

theorem wanted_ne_space (adding : Bool) : wanted adding ≠ byte ' ' := by cases adding <;> decide

/-- A letter gives its mode a direction. -/
theorem WalkOk.letter {w w₁ : ModeWalk} {dir : UInt8 → Option Bool} (h : WalkOk w dir) {m : UInt8}
    (hm : m ∈ str "imnpstkl") (hseen : m ∉ w.seen) {adding : Bool}
    (harg : modeArg (takeUp w adding m) adding m = .ok w₁) :
    WalkOk w₁ fun x => if x = m then some adding else dir x := by
  obtain ⟨hletters, hsign, hwseen, hlimit⟩ := modeArg_cases harg
  rw [show (takeUp w adding m).limit = w.limit from rfl] at hlimit
  have hdirection : (some (wanted adding) != some (byte '-')) = adding := by cases adding <;> decide
  refine ⟨fun rest => ?_, ?_, fun hl => ?_, fun hl => ?_, fun hl => ?_⟩
  · rw [hletters, hsign, takeUp, hdirection]
    exact h.parse_letter hm adding rest
  · rw [hletters, takeUp]
    have hspaces : ∀ m ∈ str "imnpstkl", m ≠ byte ' ' := forall_of_all (by decide)
    rw [List.mem_append, List.mem_singleton, not_or]
    refine ⟨?_, Ne.symm (hspaces m hm)⟩
    by_cases hsame : (w.sign != some (wanted adding)) = true
    · rw [if_pos hsame, List.mem_append, List.mem_singleton, not_or]
      exact ⟨h.space, Ne.symm (wanted_ne_space adding)⟩
    · rw [if_neg hsame]
      exact h.space
  · by_cases hml : m = byte 'l'
    · rw [if_pos hml.symm, Option.some.injEq] at hl
      rwa [if_pos ⟨hml, hl⟩] at hlimit
    · rw [if_neg fun h => hml h.1] at hlimit
      rw [if_neg (Ne.symm hml)] at hl
      rw [hlimit]
      exact h.limit hl
  · by_cases hml : m = byte 'l'
    · rw [if_pos hml.symm, ne_eq, Option.some.injEq] at hl
      rw [if_neg fun h => hl h.2] at hlimit
      rw [hlimit]
      refine h.unlimited ?_
      rw [h.seen (hml ▸ hseen)]
      exact nofun
    · rw [if_neg fun h => hml h.1] at hlimit
      rw [if_neg (Ne.symm hml)] at hl
      rw [hlimit]
      exact h.unlimited hl
  · rw [hwseen, takeUp, List.mem_cons, not_or] at hl
    rw [if_neg hl.1]
    exact h.seen hl.2

theorem walkOk_modeLoop {ms : Str} :
    ∀ {w w' : ModeWalk} {adding : Bool} {dir : UInt8 → Option Bool},
    WalkOk w dir → modeLoop w adding ms = .ok w' → ∃ dir', WalkOk w' dir' := by
  induction ms with
  | nil =>
      intro w w' adding dir h hloop
      exact ⟨dir, Except.ok.inj hloop ▸ h⟩
  | cons m ms ih =>
      intro w w' adding dir h hloop
      rcases modeLoop_cons hloop with ⟨-, hloop⟩ | ⟨hm, hseen, w₁, harg, hloop⟩
      · exact ih h hloop
      · exact ih (h.letter hm hseen harg) hloop

/-- What is stored at the end of a walk. -/
def storedOf (w : ModeWalk) : Str :=
  if 0 < w.limit then w.letters ++ str " " ++ dec w.limit else w.letters

/-- What the checks at the end of an accepted mode string have found. -/
theorem parseModes_walk {modes : Str} {args : List Str} {p : ParsedModes}
    (h : parseModes modes args = .ok p) :
    ∃ w, modeLoop { args } true modes = .ok w ∧ w.letters ≠ [] ∧ w.args = [] ∧
      (w.plusS && w.plusP) = false ∧ (storedOf w).length ≤ cModesMax ∧
      p = { stored := storedOf w, key := w.key, keyClear := w.keyClear } := by
  unfold parseModes at h
  split at h
  · cases h
  · rename_i w hloop
    split at h
    · cases h
    · rename_i hletters
      split at h
      · cases h
      · rename_i hargs
        split at h
        · cases h
        · rename_i hsecret
          dsimp only at h
          change (if cModesMax < (storedOf w).length then _ else Except.ok (ParsedModes.mk (storedOf w) _ _)) = _ at h
          split at h
          · cases h
          · rename_i hlen
            refine ⟨w, hloop, fun hnil => hletters (List.isEmpty_iff.mpr hnil), ?_,
              Bool.eq_false_iff.mpr hsecret, Nat.not_lt.mp hlen, (Except.ok.inj h).symm⟩
            rwa [Bool.not_eq_true', Bool.not_eq_false, List.isEmpty_iff] at hargs

/-- **What is stored is read back**: the letters, and a limit in range when they ask for one. -/
theorem WalkOk.readable {w : ModeWalk} {dir : UInt8 → Option Bool} (hw : WalkOk w dir)
    (hne : w.letters ≠ []) :
    ∃ rest, tokens (storedOf w) = w.letters :: rest ∧
      parseStored (fun _ => none) true w.letters = .ok dir ∧
      wantedLimit dir rest.head? = some w.limit := by
  have hparse : parseStored (fun _ => none) true w.letters = .ok dir := by
    have hall := hw.parse []
    rw [List.append_nil] at hall
    exact hall
  have hkeep : w.letters.isEmpty = false := List.isEmpty_eq_false_iff.mpr hne
  by_cases hl : dir (byte 'l') = some true
  · obtain ⟨hmin, hmax⟩ := hw.limit hl
    obtain ⟨hdigits, hread, hdec, hspace⟩ := dec_limit hmin hmax
    refine ⟨[dec w.limit], ?_, hparse, ?_⟩
    · rw [storedOf, if_pos (by omega)]
      unfold tokens
      rw [List.append_assoc, show str " " ++ dec w.limit = byte ' ' :: dec w.limit from rfl,
        splitOn_append hw.space, splitOn_of_notMem hspace]
      simp [hkeep, hdec]
    · unfold wantedLimit
      rw [if_pos hl, List.head?_cons, Option.filter_some, if_pos hdigits, Option.bind_some, hread,
        if_pos ⟨hmin, hmax⟩]
  · refine ⟨[], ?_, hparse, ?_⟩
    · rw [storedOf, hw.unlimited hl, if_neg (lt_irrefl 0)]
      unfold tokens
      rw [splitOn_of_notMem hw.space]
      simp [hkeep]
    · unfold wantedLimit
      rw [if_neg hl, hw.unlimited hl]

theorem stored_readable {modes : Str} {args : List Str} {p : ParsedModes}
    (h : parseModes modes args = .ok p) :
    ∃ letters rest dir want, p.stored.length < 128 ∧ tokens p.stored = letters :: rest ∧
      parseStored (fun _ => none) true letters = .ok dir ∧
      wantedLimit dir rest.head? = some want ∧
      (dir (byte 'l') = some true → 1 ≤ want ∧ want ≤ 99999) := by
  obtain ⟨w, hloop, hne, -, -, hlen, rfl⟩ := parseModes_walk h
  obtain ⟨dir, hw⟩ := walkOk_modeLoop (walkOk_start args) hloop
  obtain ⟨rest, htokens, hparse, hwant⟩ := hw.readable hne
  exact ⟨w.letters, rest, dir, w.limit, Nat.lt_of_le_of_lt hlen (by decide), htokens, hparse,
    hwant, hw.limit⟩

/-! ### The job -/

/-- The state after the server has reported a change in a channel. -/
def echo (ci : Nat) (b : BotState) (change : Str) : BotState :=
  Chanlive.apply b ci (changeModes change) (changeArgs change) false

theorem foldl_echo (ci : Nat) (changes : List Str) : ∀ b : BotState,
    changes.foldl (echo ci) b = withChan b ci fun c => changes.foldl (echoChan b.isup b.now) c := by
  induction changes with
  | nil =>
      intro b
      have hsame : b.chans.modify ci (fun c => c) = b.chans := List.modify_id ci b.chans
      change b = { b with chans := b.chans.modify ci fun c => c }
      rw [hsame]
  | cons change changes ih =>
      intro b
      rw [List.foldl_cons, ih]
      unfold echo Chanlive.apply withChan
      dsimp only
      rw [List.modify_modify_eq]
      rfl

/-- What the job makes of modes that can be read. -/
theorem modeChanges_eq {b : BotState} {ci : Nat} {c : Chan} (hc : b.chans[ci]? = some c)
    (hknown : c.liveKnown = true) {letters : Str} {rest : List Str} {dir : UInt8 → Option Bool}
    {want : Int} (hlen : (getModes b (some c)).length < 128)
    (htokens : tokens (getModes b (some c)) = letters :: rest)
    (hdir : parseStored (fun _ => none) true letters = .ok dir)
    (hwant : wantedLimit dir rest.head? = some want) (skipLimit requireKnown : Bool) :
    modeChanges b ci skipLimit requireKnown =
      .ok (plans (letterChanges dir want) (planned skipLimit) c) := by
  have hget : b.chans.getD ci {} = c := by
    rw [List.getD_eq_getElem?_getD, hc]
    rfl
  rw [plans_letterChanges]
  unfold modeChanges
  rw [hc]
  dsimp only
  rw [if_neg (Nat.not_le.mpr hlen), htokens]
  dsimp only
  rw [hdir, hget]
  dsimp only [Except.bind]
  rw [hwant]
  dsimp only
  rw [hknown, Bool.not_true, Bool.and_false, if_neg Bool.false_ne_true]

/-- What a line of the job is made of can go out. -/
structure Sends (b : BotState) (c : Chan) : Prop where
  connected : b.connected = true
  name : Printable c.name ∧ c.name.length < maxChan
  key : Printable c.key
  liveKey : Printable c.liveKey ∧ c.liveKey.length < maxKey

theorem printable_plans {c : Chan} {dir : UInt8 → Option Bool} {want : Int} {skipLimit : Bool}
    {b : BotState} (hsends : Sends b c) (hkey : c.key.length < maxKey)
    (hwant : dir (byte 'l') = some true → 1 ≤ want ∧ want ≤ 99999) :
    ∀ change ∈ plans (letterChanges dir want) (planned skipLimit) c,
      Printable change ∧ change.length < 3 + maxKey := by
  have hflag : ∀ m ∈ str "imnpst", ∀ sign ∈ str "+-", Printable [sign, m] :=
    forall_of_all (by decide)
  have hshort : (2 : Nat) < 3 + maxKey := by decide
  intro change hchange
  rw [plans_letterChanges, List.mem_append, List.mem_append] at hchange
  rcases hchange with (hchange | hchange) | hchange
  · obtain ⟨m, hm, hchange⟩ := List.mem_flatMap.mp hchange
    unfold flagChanges at hchange
    split at hchange
    · cases hchange
    · split at hchange
      · rw [List.mem_singleton] at hchange
        exact hchange ▸ ⟨hflag m hm _ (by decide), hshort⟩
      · cases hchange
    · split at hchange
      · rw [List.mem_singleton] at hchange
        exact hchange ▸ ⟨hflag m hm _ (by decide), hshort⟩
      · cases hchange
  · have hold : Printable (str "-k " ++ c.liveKey) ∧ (str "-k " ++ c.liveKey).length < 3 + maxKey :=
      ⟨.append (by decide) hsends.liveKey.1, by
        rw [List.length_append]
        exact Nat.add_lt_add_left hsends.liveKey.2 3⟩
    have hnew : Printable (str "+k " ++ c.key) ∧ (str "+k " ++ c.key).length < 3 + maxKey :=
      ⟨.append (by decide) hsends.key, by
        rw [List.length_append]
        exact Nat.add_lt_add_left hkey 3⟩
    unfold keyChanges at hchange
    dsimp only at hchange
    split at hchange
    · split at hchange
      · rcases List.mem_append.mp hchange with hchange | hchange
        · split at hchange
          · exact List.mem_singleton.mp hchange ▸ hold
          · cases hchange
        · exact List.mem_singleton.mp hchange ▸ hnew
      · cases hchange
    · split at hchange
      · exact List.mem_singleton.mp hchange ▸ hold
      · cases hchange
    · cases hchange
  · split at hchange
    · cases hchange
    · unfold limitChanges at hchange
      dsimp only at hchange
      split at hchange
      · rename_i hdir
        split at hchange
        · obtain ⟨hmin, hmax⟩ := hwant hdir
          obtain ⟨hlimit, -⟩ := dec_limit hmin hmax
          simp only [allDigits, Bool.and_eq_true, decide_eq_true_eq, List.all_eq_true] at hlimit
          have hprint : Printable (dec want) := by
            intro x hx
            have hdigit := hlimit.2 x hx
            refine ⟨?_, ?_, ?_⟩ <;>
              · rintro rfl
                exact absurd hdigit (by decide)
          have hlen : (str "+l " ++ dec want).length < 3 + maxKey := by
            rw [List.length_append]
            exact Nat.add_lt_add_left (Nat.lt_of_le_of_lt hlimit.1.2 (by decide)) 3
          exact List.mem_singleton.mp hchange ▸ ⟨.append (by decide) hprint, hlen⟩
        · cases hchange
      · split at hchange
        · exact List.mem_singleton.mp hchange ▸ ⟨by decide, by decide⟩
        · cases hchange
      · cases hchange

/-- The lines of the changes go out one after the other. -/
theorem ircOut_foldl (name : Str) (changes : List Str) : ∀ b : BotState, ∃ out,
    (changes.foldl (fun b change => ircPrintf b (modeLine name change)) b).ircOut =
      b.ircOut ++ out := by
  induction changes with
  | nil => exact fun b => ⟨[], (List.append_nil _).symm⟩
  | cons change changes ih =>
      intro b
      obtain ⟨line, hline, -⟩ := ircPrintf_eq b (modeLine name change)
      obtain ⟨out, hout⟩ := ih (ircPrintf b (modeLine name change))
      refine ⟨line ++ out, ?_⟩
      rw [List.foldl_cons, hout, hline]
      exact List.append_assoc _ _ _

/-- The first change that is queued is seen. -/
theorem ircOut_foldl_cons {b : BotState} {c : Chan} (hsends : Sends b c) {change : Str}
    (hchange : Printable change ∧ change.length < 3 + maxKey) (changes : List Str) :
    ((change :: changes).foldl (fun b change => ircPrintf b (modeLine c.name change)) b).ircOut ≠
      b.ircOut := by
  have htakes : takesLine b (modeLine c.name change) = true := by
    have hprint : Printable (str "MODE " ++ c.name ++ str " " ++ change) :=
      ((Printable.append (by decide) hsends.name.1).append (by decide)).append hchange.1
    have hlen : (str "MODE " ++ c.name ++ str " " ++ change).length + 2 < maxBuffer := by
      have hname := hsends.name.2
      have hshort := hchange.2
      have hroom : 5 + maxChan + 1 + (3 + maxKey) + 2 < maxBuffer := by decide
      simp only [List.length_append, show (str "MODE ").length = 5 from rfl,
        show (str " ").length = 1 from rfl]
      omega
    exact (takesLine_printable b hprint hlen).trans hsends.connected
  obtain ⟨out, hout⟩ := ircOut_foldl c.name changes (ircPrintf b (modeLine c.name change))
  rw [List.foldl_cons, hout]
  unfold ircPrintf
  rw [if_pos htakes]
  intro heq
  have hlen := congrArg List.length heq
  simp only [List.length_append, List.length_cons, List.length_nil] at hlen
  omega

/-- A channel with another key than the stored one, where the server has told its modes. -/
def otherKey : Chan where
  name := str "#c"
  key := str "sesame"
  cfgModes := str "+ntkl-s 20"
  cfgTs := 1
  cfgActive := true
  liveFlags := liveBit (byte 's') ||| liveBit (byte 'k')
  liveKey := str "old"
  liveKnown := true

theorem modesOk_default : ModesOk {} := ⟨by decide, by decide, by decide⟩

end IrcBot.ModeSync

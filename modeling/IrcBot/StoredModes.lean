/-
# The three readers of a mode string (`chancmd.rs`, `chancfg.rs`, `chanlive.rs`)

`parse_modes` reads what an admin types, `apply_c_line` checks the normalised string that is stored
of it, and `mode_sync` reads that string to enforce it. `asked` is what the typed word means: its
letters with their signs, and the arguments handed to `+k` and `+l` from the left.

* `Walked.letter`, `walked_modeLoop` — the walk over the word has taken in exactly what it asks for.
* `applyCLine_modes` — the record is stored with the string as it is, and never refused for it.
* `stored_modes` — the job reads out of it what the word asked for, and turns nothing down.
-/
import IrcBot.Lib.ArgWalk
import IrcBot.ModeSync
import IrcBot.Stamps

namespace IrcBot.StoredModes

open Cstr Chancfg Chanlive Chancmd ModeSync SettingsMerge Stamps Lib.ArgWalk Lib.OneRound

/-! ### What a mode word asks for -/

/-- The letters that take an argument of an admin's. -/
def takes (x : Bool × UInt8) : Bool := x.1 && (x.2 == byte 'k' || x.2 == byte 'l')

/-- The letters of a mode word with their arguments. -/
def asked (modes : Str) (args : List Str) : List ((Bool × UInt8) × Option Str) :=
  assign takes (signed true modes) args

/-- The direction that letters give a mode. -/
def direction (xs : List ((Bool × UInt8) × Option Str)) (m : UInt8) : Option Bool :=
  (xs.find? (·.1.2 == m)).map (·.1.1)

/-- What a walk has gathered from the letters `xs`. -/
structure Walked (w : ModeWalk) (xs : List ((Bool × UInt8) × Option Str)) : Prop where
  ok : WalkOk w (direction xs)
  seen : ∀ x ∈ xs, x.1.2 ∈ w.seen
  once : (xs.map (·.1.2)).Nodup
  chars : ∀ c ∈ w.letters, c ∈ str "+-imnpstkl"
  limit : ∀ a, ((true, byte 'l'), a) ∈ xs → a.bind limitArg = some w.limit
  key : ∀ k, w.key = some k ↔ ((true, byte 'k'), some k) ∈ xs
  keyClear : w.keyClear = true ↔ ((false, byte 'k'), none) ∈ xs

theorem walked_start (args : List Str) : Walked { args } [] :=
  ⟨walkOk_start args, nofun, List.nodup_nil, nofun, nofun, fun _ => ⟨nofun, nofun⟩, nofun, nofun⟩

variable {w w₁ w' : ModeWalk} {xs : List ((Bool × UInt8) × Option Str)} {m : UInt8} {adding : Bool}

/-- A letter with the argument that it takes next. -/
def taking (adding : Bool) (m : UInt8) (args : List Str) : (Bool × UInt8) × Option Str :=
  ((adding, m), if takes (adding, m) then args.head? else none)

theorem signed_plain (hm : m ∈ str "imnpstkl") (adding : Bool) (ms : Str) :
    signed adding (m :: ms) = (adding, m) :: signed adding ms := by
  have hsigns : ∀ m ∈ str "imnpstkl", m ≠ byte '+' ∧ m ≠ byte '-' :=
    forall_of_all (by decide)
  obtain ⟨hplus, hminus⟩ := hsigns m hm
  rw [signed, if_neg hplus, if_neg hminus]

theorem direction_append {x : (Bool × UInt8) × Option Str} (hnew : x.1.2 ∉ xs.map (·.1.2)) :
    direction (xs ++ [x]) = fun y => if y = x.1.2 then some x.1.1 else direction xs y := by
  funext y
  rw [direction, List.find?_append]
  by_cases hy : y = x.1.2
  · have hnone : xs.find? (·.1.2 == y) = none :=
      List.find?_eq_none.mpr fun z hz heq => hnew (List.mem_map.mpr ⟨z, hz, (eq_of_beq heq).trans hy⟩)
    rw [hnone, if_pos hy, Option.none_or, List.find?_cons_of_pos (by simp [hy])]
    rfl
  · rw [if_neg hy, List.find?_cons_of_neg (by simpa using Ne.symm hy), List.find?_nil,
      Option.or_none,
      direction]

/-- What the argument of a letter is put to. -/
structure Argued (w w₁ : ModeWalk) (x : Bool × UInt8) (arg : Option Str) : Prop where
  args : w₁.args = if takes x then w.args.tail else w.args
  limit : if x = (true, byte 'l') then arg.bind limitArg = some w₁.limit else w₁.limit = w.limit
  key : if x = (true, byte 'k') then arg.isSome = true ∧ w₁.key = arg else w₁.key = w.key
  keyClear : if x = (false, byte 'k') then arg = none ∧ w₁.keyClear = true else w₁.keyClear = w.keyClear

theorem argued (h : modeArg w adding m = .ok w₁) :
    Argued w w₁ (adding, m) (taking adding m w.args).2 := by
  rcases modeArg_ok h with ⟨rfl, rfl, rfl⟩ | ⟨rfl, rfl, k, rest, hargs, rfl⟩ |
    ⟨rfl, rfl, a, rest, v, hargs, hv, rfl⟩ | ⟨hk, hl, rfl⟩
  · exact ⟨rfl, rfl, rfl, ⟨rfl, rfl⟩⟩
  · rw [hargs]
    exact ⟨by rw [hargs]; rfl, rfl, ⟨rfl, rfl⟩, rfl⟩
  · rw [hargs]
    exact ⟨by rw [hargs]; rfl, hv, rfl, rfl⟩
  · have hnone : takes (adding, m) = false := by
      cases adding with
      | false => rfl
      | true => simp [takes, hk, show m ≠ byte 'l' from fun h => hl ⟨h, rfl⟩]
    have hletter {a : Bool} {q : UInt8} (hne : ¬ (m = q ∧ adding = a)) : (adding, m) ≠ (a, q) :=
      fun h => hne ⟨(Prod.mk.inj h).2, (Prod.mk.inj h).1⟩
    refine ⟨by rw [hnone]; rfl, ?_, ?_, ?_⟩
    · rw [if_neg (hletter hl)]
    · rw [if_neg (hletter fun h => hk h.1)]
    · rw [if_neg (hletter fun h => hk h.1)]

theorem mem_snoc_of_ne {x y : (Bool × UInt8) × Option Str} (hne : x.1 ≠ y.1) :
    y ∈ xs ++ [x] ↔ y ∈ xs := by
  rw [List.mem_append, List.mem_singleton, or_iff_left fun h => hne (congrArg Prod.fst h).symm]

/-- A letter is taken in. -/
theorem Walked.letter (h : Walked w xs) (hm : m ∈ str "imnpstkl") (hseen : m ∉ w.seen)
    (harg : modeArg (takeUp w adding m) adding m = .ok w₁) :
    Walked w₁ (xs ++ [taking adding m w.args]) := by
  obtain ⟨hletters, -, hwseen, -⟩ := modeArg_cases harg
  have hargued := argued harg
  rw [show (takeUp w adding m).args = w.args from rfl] at hargued
  have hnew : m ∉ xs.map (·.1.2) := fun hmem => by
    obtain ⟨x, hx, rfl⟩ := List.mem_map.mp hmem
    exact hseen (h.seen x hx)
  have hnone {a : Bool} {arg : Option Str} : ((a, m), arg) ∉ xs := fun hmem =>
    hnew (List.mem_map.mpr ⟨_, hmem, rfl⟩)
  refine ⟨?_, fun x hx => ?_, ?_, fun c hc => ?_, fun a ha => ?_, fun k => ?_, ?_⟩
  · rw [direction_append hnew]
    exact h.ok.letter hm hseen harg
  · rw [hwseen]
    rcases List.mem_append.mp hx with hx | hx
    · exact List.mem_cons_of_mem m (h.seen x hx)
    · rw [List.mem_singleton.mp hx]
      exact List.mem_cons_self
  · rw [List.map_append, List.nodup_append]
    refine ⟨h.once, List.nodup_singleton _, fun a ha b hb => ?_⟩
    obtain rfl : b = m := List.mem_singleton.mp hb
    exact fun heq => hnew (heq ▸ ha)
  · rw [hletters, takeUp] at hc
    have hplain : ∀ m ∈ str "imnpstkl", m ∈ str "+-imnpstkl" := forall_of_all (by decide)
    have hsign : wanted adding ∈ str "+-imnpstkl" := by cases adding <;> decide
    rcases List.mem_append.mp hc with hc | hc
    · split at hc
      · rcases List.mem_append.mp hc with hc | hc
        · exact h.chars c hc
        · exact List.mem_singleton.mp hc ▸ hsign
      · exact h.chars c hc
    · exact List.mem_singleton.mp hc ▸ hplain m hm
  · have hlimit := hargued.limit
    by_cases hl : (adding, m) = (true, byte 'l')
    · obtain ⟨rfl, rfl⟩ := Prod.mk.inj hl
      rw [if_pos rfl] at hlimit
      rcases List.mem_append.mp ha with ha | ha
      · exact absurd ha hnone
      · rwa [← congrArg Prod.snd (List.mem_singleton.mp ha)] at hlimit
    · rw [if_neg hl, show (takeUp w adding m).limit = w.limit from rfl] at hlimit
      rw [hlimit]
      exact h.limit a ((mem_snoc_of_ne hl).mp ha)
  · have hkey := hargued.key
    by_cases hk : (adding, m) = (true, byte 'k')
    · obtain ⟨rfl, rfl⟩ := Prod.mk.inj hk
      rw [if_pos rfl] at hkey
      rw [hkey.2, List.mem_append, or_iff_right hnone, List.mem_singleton, Prod.ext_iff]
      exact ⟨fun h => ⟨rfl, h.symm⟩, fun h => h.2.symm⟩
    · rw [if_neg hk, show (takeUp w adding m).key = w.key from rfl] at hkey
      rw [hkey, h.key k, mem_snoc_of_ne hk]
  · have hclear := hargued.keyClear
    by_cases hk : (adding, m) = (false, byte 'k')
    · obtain ⟨rfl, rfl⟩ := Prod.mk.inj hk
      rw [if_pos rfl] at hclear
      exact iff_of_true hclear.2 (List.mem_append_right _ (List.mem_singleton.mpr (Prod.ext rfl hclear.1.symm)))
    · rw [if_neg hk, show (takeUp w adding m).keyClear = w.keyClear from rfl] at hclear
      rw [hclear, h.keyClear, mem_snoc_of_ne hk]

/-- **The walk takes in what the word asks for.** -/
theorem walked_modeLoop {ms : Str} : ∀ {w w' : ModeWalk} {adding : Bool}
    {xs : List ((Bool × UInt8) × Option Str)}, Walked w xs → modeLoop w adding ms = .ok w' →
      Walked w' (xs ++ assign takes (signed adding ms) w.args) ∧
      ∀ x ∈ signed adding ms, x.2 ∈ str "imnpstkl" := by
  induction ms with
  | nil =>
      intro w w' adding xs h hloop
      obtain rfl := Except.ok.inj hloop
      rw [signed, assign_nil, List.append_nil]
      exact ⟨h, nofun⟩
  | cons m ms ih =>
      intro w w' adding xs h hloop
      rcases modeLoop_cons hloop with ⟨hsign, hloop⟩ | ⟨hm, hseen, w₁, harg, hloop⟩
      · have hskip : signed adding (m :: ms) = signed (m = byte '+') ms := by
          rcases hsign with rfl | rfl <;> rfl
        rw [hskip]
        exact ih h hloop
      · obtain ⟨hwalked, hknown⟩ := ih (h.letter hm hseen harg) hloop
        rw [signed_plain hm]
        refine ⟨?_, List.forall_mem_cons.mpr ⟨hm, hknown⟩⟩
        have hrest : assign takes ((adding, m) :: signed adding ms) w.args =
            taking adding m w.args :: assign takes (signed adding ms) w₁.args := by
          rw [assign_cons, (argued harg).args, taking,
            show (takeUp w adding m).args = w.args from rfl]
          split <;> rfl
        rw [hrest, List.append_cons]
        exact hwalked

/-! ### The record -/

theorem dec_plain {n : Int} (hpos : 1 ≤ n) (hmax : n ≤ 99999) : ∀ c ∈ dec n, isDigit c = true := by
  have hdigits := (dec_limit hpos hmax).1
  rw [allDigits, Bool.and_eq_true, List.all_eq_true] at hdigits
  exact hdigits.2

theorem Walked.validModesField (h : Walked w xs) (hlen : (storedOf w).length ≤ cModesMax) :
    validModesField (storedOf w) = true := by
  have hletters : ∀ c ∈ str "+-imnpstkl", 0x20 ≤ c ∧ c ≤ 0x7e ∧ c ≠ byte '|' :=
    forall_of_all (by decide)
  have hdigit {c : UInt8} (hc : isDigit c = true) : 0x20 ≤ c ∧ c ≤ 0x7e ∧ c ≠ byte '|' := by
    rw [isDigit, Bool.and_eq_true, decide_eq_true_eq, decide_eq_true_eq] at hc
    exact ⟨UInt8.le_trans (by decide) hc.1, UInt8.le_trans hc.2 (by decide),
      fun hpipe => absurd (hpipe ▸ hc.2) (by decide)⟩
  rw [Chancfg.validModesField, Bool.and_eq_true, decide_eq_true_eq, List.all_eq_true]
  refine ⟨hlen, fun c hc => ?_⟩
  rw [Bool.and_eq_true, Bool.and_eq_true, decide_eq_true_eq, decide_eq_true_eq,
    decide_eq_true_eq, and_assoc]
  rw [storedOf] at hc
  split at hc
  · rename_i hpos
    rcases List.mem_append.mp hc with hc | hc
    · rcases List.mem_append.mp hc with hc | hc
      · exact hletters c (h.chars c hc)
      · rw [List.mem_singleton.mp hc]
        decide
    · have hl : direction xs (byte 'l') = some true := by
        by_contra hl
        rw [h.ok.unlimited hl] at hpos
        exact absurd hpos (lt_irrefl 0)
      exact hdigit (dec_plain (h.ok.limit hl).1 (h.ok.limit hl).2 c hc)
  · exact hletters c (h.chars c hc)

/-- Whether a record is stored does not depend on its modes. -/
theorem storeC_modes (b : BotState) (r : CRecord) (modes : Str) :
    (storeC b { r with modes }).1 = (storeC b r).1 := by
  unfold storeC
  dsimp only
  cases chanForSettings b r.chan r.active with
  | none => rfl
  | some k =>
      dsimp only
      cases k.2.chans[k.1]? with
      | none => rfl
      | some c =>
          dsimp only
          split <;> rfl

/-- What the channel of a stored record has. -/
theorem mem_storeC {b b' : BotState} {r : CRecord} (hr : CChecks r) (h : storeC b r = (true, b')) :
    ∃ c ∈ b'.chans, eqIc c.name r.chan = true ∧ c.cfgModes = r.modes ∧
      (r.active = true → r.modes ≠ [] → getModes b' (some c) = r.modes) := by
  have hmodes (c : Chan) : r.active = true → r.modes ≠ [] →
    getModes b' (some (r.store c)) = r.modes := by
    intro hactive hne
    have hnonempty : (!r.modes.isEmpty) = true := by simpa using hne
    rw [getModes, Option.bind_some, CRecord.store]
    dsimp only
    rw [hactive, decide_eq_true hr.pos, Bool.and_self, if_pos rfl, Option.filter_some,
      if_pos hnonempty]
    rfl
  obtain ⟨k, base, rfl, ⟨hfind, rfl⟩ | ⟨-, rfl, rfl⟩⟩ :=
    storeC_cases (validChanName_plain hr.chan).1 h
  · obtain ⟨c, hc, hname⟩ := find_eq_some hfind
    refine ⟨r.store c, List.mem_of_getElem? (i := k) ?_, hname, rfl, hmodes c⟩
    rw [List.getElem?_modify_eq, hc]
    rfl
  · refine ⟨r.store (opened r.chan), ?_, eqIc_refl r.chan, rfl, hmodes _⟩
    rw [modify_concat]
    exact List.mem_append_right _ List.mem_cons_self

/-- **A `C|` record is stored with its modes as they are**, and is never turned down for them. -/
theorem applyCLine_modes {r : CRecord} (hr : CChecks r) (b : BotState) :
    (applyCLine b (cBody r r.ts)).1 = (applyCLine b (cBody { r with modes := [] } r.ts)).1 ∧
    ((applyCLine b (cBody r r.ts)).1 = true → ∃ c ∈ (applyCLine b (cBody r r.ts)).2.chans,
      eqIc c.name r.chan = true ∧ c.cfgModes = r.modes ∧ (r.active = true → r.modes ≠ [] →
        getModes (applyCLine b (cBody r r.ts)).2 (some c) = r.modes)) := by
  have hbare : CChecks { r with modes := [] } := { hr with modes := rfl }
  have hfull : applyCLine b (cBody r r.ts) = storeC b r :=
    (applyCLine_of_read (readCLine_cBody hr hr.pos hr.fits)).1
  rw [hfull, (applyCLine_of_read (readCLine_cBody hbare hr.pos hr.fits)).1]
  exact ⟨(storeC_modes b r []).symm, fun hstored => mem_storeC hr (Prod.ext hstored rfl)⟩

/-! ### The three readers -/

/-- The modes that a word asks for, its key as `parse_modes` reports it, and the directions and the
limit of the job. -/
structure Agree (modes : Str) (args : List Str) (p : ParsedModes) (dir : UInt8 → Option Bool)
    (want : Int) : Prop where
  known : ∀ x ∈ signed true modes, x.2 ∈ str "imnpstkl"
  dir : ∀ m adding, dir m = some adding ↔ (adding, m) ∈ signed true modes
  limit : ∀ a, ((true, byte 'l'), a) ∈ asked modes args → a.bind limitArg = some want
  unlimited : (true, byte 'l') ∉ signed true modes → want = 0
  key : ∀ k, p.key = some k ↔ ((true, byte 'k'), some k) ∈ asked modes args
  keyClear : p.keyClear = true ↔ ((false, byte 'k'), none) ∈ asked modes args

theorem direction_eq_some_iff (h : (xs.map (·.1.2)).Nodup) :
    direction xs m = some adding ↔ (adding, m) ∈ xs.map Prod.fst := by
  induction xs with
  | nil => exact iff_of_false nofun nofun
  | cons x xs ih =>
      obtain ⟨hx, hxs⟩ := List.nodup_cons.mp h
      rw [direction, List.map_cons, List.mem_cons]
      by_cases hm : x.1.2 = m
      · have hlater : (adding, m) ∉ xs.map Prod.fst := fun hmem => by
          obtain ⟨y, hy, heq⟩ := List.mem_map.mp hmem
          exact hx (List.mem_map.mpr ⟨y, hy, (congrArg Prod.snd heq).trans hm.symm⟩)
        rw [List.find?_cons_of_pos (by simp [hm]), or_iff_left hlater, Option.map_some,
          Option.some.injEq]
        exact ⟨fun h => Prod.ext h.symm hm.symm, fun h => (congrArg Prod.fst h).symm⟩
      · rw [List.find?_cons_of_neg (by simpa using hm),
          or_iff_right fun h => hm (congrArg Prod.snd h).symm]
        exact ih hxs

theorem Walked.agree {modes : Str} {args : List Str} (h : Walked w (asked modes args))
    (hknown : ∀ x ∈ signed true modes, x.2 ∈ str "imnpstkl") :
    Agree modes args { stored := storedOf w, key := w.key, keyClear := w.keyClear }
      (direction (asked modes args)) w.limit := by
  have hdir (m : UInt8) (adding : Bool) :
      direction (asked modes args) m = some adding ↔ (adding, m) ∈ signed true modes := by
    rw [direction_eq_some_iff h.once, asked, map_fst_assign]
  refine ⟨hknown, hdir, h.limit,
    fun hl => h.ok.unlimited fun hdirection => hl ((hdir _ _).mp hdirection),
    h.key, h.keyClear⟩

/-- **The readers of a mode string agree.** What `parse_modes` stores of an accepted word is stored
by `apply_c_line` as it is, in any record that is well-formed otherwise; and where it is in force in
a channel with known modes, `mode_sync` turns nothing down and goes by the directions and the limit
that the word asked for. -/
theorem stored_modes {modes : Str} {args : List Str} {p : ParsedModes}
    (h : parseModes modes args = .ok p) :
    (∀ (b : BotState) (r : CRecord), CChecks { r with modes := [] } → r.modes = p.stored →
      (applyCLine b (cBody r r.ts)).1 = (applyCLine b (cBody { r with modes := [] } r.ts)).1 ∧
      ((applyCLine b (cBody r r.ts)).1 = true → ∃ c ∈ (applyCLine b (cBody r r.ts)).2.chans,
        eqIc c.name r.chan = true ∧ c.cfgModes = p.stored ∧
          (r.active = true → getModes (applyCLine b (cBody r r.ts)).2 (some c) = p.stored))) ∧
    ∃ dir want, Agree modes args p dir want ∧
      ∀ (b : BotState) (ci : Nat) (c : Chan), b.chans[ci]? = some c → c.liveKnown = true →
        getModes b (some c) = p.stored → ∀ skipLimit dry requireKnown,
          modeChanges b ci skipLimit requireKnown = .ok ((str "imnpst").flatMap (flagChanges c dir) ++
            keyChanges c dir ++ if skipLimit then [] else limitChanges c dir want) ∧
          ∃ n, (modeSync b ci skipLimit dry requireKnown).1 = .ok n := by
  obtain ⟨w, hloop, hne, -, -, hlen, rfl⟩ := parseModes_walk h
  obtain ⟨hwalked, hknown⟩ := walked_modeLoop (walked_start args) hloop
  rw [List.nil_append] at hwalked
  change Walked w (asked modes args) at hwalked
  have hstored : storedOf w ≠ [] := by
    rw [storedOf]
    split
    · simp [hne]
    · exact hne
  refine ⟨fun b r hr hmodes => ?_, direction (asked modes args), w.limit, hwalked.agree hknown,
    fun b ci c hc hlive hget skipLimit dry requireKnown => ?_⟩
  · dsimp only at hmodes ⊢
    have hchecks : CChecks r := { hr with modes := hmodes ▸ hwalked.validModesField hlen }
    obtain ⟨hsame, hmem⟩ := applyCLine_modes hchecks b
    refine ⟨hsame, fun htrue => ?_⟩
    obtain ⟨c, hc, hname, hcfg, hget⟩ := hmem htrue
    rw [hmodes] at hcfg hget
    exact ⟨c, hc, hname, hcfg, fun hactive => hget hactive hstored⟩
  · obtain ⟨rest, htokens, hparse, hwant⟩ := hwalked.ok.readable hne
    dsimp only at hget
    have hplan := modeChanges_eq hc hlive (by rw [hget]; exact Nat.lt_of_le_of_lt hlen (by decide))
      (by rw [hget]; exact htokens) hparse hwant skipLimit requireKnown
    refine ⟨hplan.trans (congrArg Except.ok (plans_letterChanges _ _ _ _)),
      (plans (letterChanges (direction (asked modes args)) w.limit) (planned skipLimit) c).length, ?_⟩
    rw [modeSync, hplan]

/-- A word with both arguments, for a channel that has none of it yet. -/
theorem stored_modes_limit : ∃ dir want,
    Agree (str "nt+kl-s") [str "sesame", str "20"]
      ⟨str "+ntkl-s 20", some (str "sesame"), false⟩ dir want ∧
    ∃ n, (modeSync { chans := [otherKey] } 0 false true true).1 = .ok n := by
  have hparse : parseModes (str "nt+kl-s") [str "sesame", str "20"] =
      .ok ⟨str "+ntkl-s 20", some (str "sesame"), false⟩ := by decide
  obtain ⟨-, dir, want, hagree, hjob⟩ := stored_modes hparse
  exact ⟨dir, want, hagree, (hjob { chans := [otherKey] } 0 otherKey rfl rfl (by decide) false true true).2⟩

end IrcBot.StoredModes

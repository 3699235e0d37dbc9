/-
# MODE lines (`irc_parser.rs`)

`handleModeChange` follows a channel MODE: who has ops (the bot's own above all),
the key and +i. It takes the letters with arguments to be `o v b e I k` and a set
`l`; `chanlive::apply`, which it calls first, goes by the server's ISUPPORT.

* `handleModeLoop_eq` — the loop is a fold over the letters with the arguments it
  assigns to them.
* `parsersAgree_iff` — every `o` takes the argument that ISUPPORT assigns to it
  exactly when the letters ahead of each `o` put it at the same argument; the op
  flags then are those ISUPPORT prescribes.
* `not_parsersAgree` — with halfops, `+ho a b` ops `a`.
-/
import IrcBot.HubRequests

namespace IrcBot.IrcParser

open Cstr Chancfg Chanlive HubRequests

/-! ### `handle_mode_change` -/

/-- The bot itself gains or loses its ops. The held ops are granted at once; a
roster that was not refreshed while the bot was opped is read anew. -/
def ownOp (b : BotState) (ci : Nat) (adding : Bool) : BotState :=
  let b := withChan b ci fun c =>
    withEntry { c with iAmOpped := adding } b.currentNick fun r => { r with isOp := adding }
  if adding then
    grantHeldOps (withChan b ci fun c =>
      { c with
        enfDirty := true, enfOpsCheck := true, opRequestPending := false
        opRequestRetryCount := 0 }) ci
  else if (b.chans.getD ci {}).opRequestPending then b
  else
    let name := (b.chans.getD ci {}).name
    let b := ircPrintf (withChan b ci fun c => { c with roster := [] }) (str "WHO " ++ name ++ crlf)
    withChan b ci fun c => { c with lastWhoRequest := b.now }

/-- An `o` with its argument. -/
def opChange (b : BotState) (ci : Nat) (adding : Bool) (arg : Str) : BotState :=
  if eqIc arg b.currentNick then ownOp b ci adding
  else withChan b ci fun c => withEntry c arg fun r => { r with isOp := adding }

/-- A `k`. A key that is the bots' is not learned; a cleared one is forgotten
whatever the argument. -/
def keyChange (managed adding : Bool) (arg : Option Str) (c : Chan) : Chan :=
  if managed then c
  else if adding then
    match arg with
    | some a => { c with key := trunc a maxKey, modes := c.modes ||| mK }
    | none => c
  else { c with key := [], modes := c.modes &&& ~~~mK }

/-- An `i`. -/
def inviteOnlyChange (adding : Bool) (c : Chan) : Chan :=
  { c with modes := if adding then c.modes ||| mI else c.modes &&& ~~~mI }

/-- The loop over the mode string, with the arguments that are left. -/
def handleModeLoop (ci : Nat) (managed : Bool) : BotState → Bool → Str → List Str → BotState
  | b, _, [], _ => b
  | b, adding, m :: ms, args =>
      if m = byte '+' then handleModeLoop ci managed b true ms args
      else if m = byte '-' then handleModeLoop ci managed b false ms args
      else if (str "ovbeI").contains m then
        match args with
        | [] => handleModeLoop ci managed b adding ms []
        | arg :: args =>
            let b := if m = byte 'o' then opChange b ci adding arg else b
            handleModeLoop ci managed b adding ms args
      else if m = byte 'k' then
        let b := withChan b ci (keyChange managed adding args.head?)
        handleModeLoop ci managed b adding ms args.tail
      else if m = byte 'l' then
        handleModeLoop ci managed b adding ms (if adding then args.tail else args)
      else if m = byte 'i' then
        handleModeLoop ci managed (withChan b ci (inviteOnlyChange adding)) adding ms args
      else handleModeLoop ci managed b adding ms args

/-- `handle_mode_change`. -/
def handleModeChange (b : BotState) (channel modes args : Str) : BotState :=
  match find b channel with
  | none => b
  | some ci =>
      let b := if args.length < 1024 then apply b ci modes args false else b
      handleModeLoop ci (keyManaged b ci) b true modes (tokens args)

/-! ### The loop as a fold -/

/-- The letters that `handle_mode_change` takes to have an argument. -/
def loopTakes (x : Bool × UInt8) : Bool :=
  (str "ovbeIk").contains x.2 || (x.2 == byte 'l' && x.1)

/-- One letter of the loop, with its argument. -/
def handleModeStep (ci : Nat) (managed : Bool) (b : BotState) (x : (Bool × UInt8) × Option Str) :
    BotState :=
  if x.1.2 = byte 'o' then x.2.elim b (opChange b ci x.1.1)
  else if x.1.2 = byte 'k' then withChan b ci (keyChange managed x.1.1 x.2)
  else if x.1.2 = byte 'i' then withChan b ci (inviteOnlyChange x.1.1)
  else b

/-- **The loop assigns arguments by its own list of letters.** -/
theorem handleModeLoop_eq (ci : Nat) (managed : Bool) (modes : Str) :
    ∀ (b : BotState) (adding : Bool) (args : List Str),
      handleModeLoop ci managed b adding modes args =
        (Lib.ArgWalk.assign loopTakes (signed adding modes) args).foldl
          (handleModeStep ci managed) b := by
  induction modes with
  | nil =>
      intro b adding args
      rfl
  | cons m ms ih =>
      intro b adding args
      unfold handleModeLoop signed
      split
      · exact ih b true args
      · split
        · exact ih b false args
        · unfold Lib.ArgWalk.assign
          split
          · rename_i hlist
            have htakes : loopTakes (adding, m) = true := by
              simp only [List.contains_iff_mem] at hlist
              have hmem : m ∈ str "ovbeIk" := List.mem_append_left [byte 'k'] hlist
              simp [loopTakes, hmem]
            have hk : m ≠ byte 'k' := by
              rintro rfl
              simp at hlist
              revert hlist
              decide
            have hi : m ≠ byte 'i' := by
              rintro rfl
              revert hlist
              decide
            rw [if_pos htakes, List.foldl_cons]
            cases args with
            | nil => simp [ih, handleModeStep, hk, hi]
            | cons arg args =>
                by_cases ho : m = byte 'o'
                · simp [ih, handleModeStep, ho]
                · simp [ih, handleModeStep, ho, hk, hi]
          · rename_i hlist
            have ho : m ≠ byte 'o' := by
              rintro rfl
              exact hlist (by decide)
            split
            · rename_i hk
              subst hk
              rw [if_pos (by decide +revert), List.foldl_cons, ih]
              rfl
            · rename_i hk
              have hlist' : m ∉ str "ovbeIk" := by
                intro hmem
                rcases List.mem_append.mp (show m ∈ str "ovbeI" ++ [byte 'k'] from hmem) with h | h
                · exact hlist (List.contains_iff_mem.mpr h)
                · exact hk (by simpa using h)
              split
              · rename_i hl
                subst hl
                cases adding with
                | true =>
                    have htakes : loopTakes (true, byte 'l') = true := by decide
                    rw [if_pos htakes, List.foldl_cons, ih]
                    rfl
                | false =>
                    have htakes : ¬ loopTakes (false, byte 'l') = true := by decide
                    rw [if_neg htakes, List.foldl_cons, ih]
                    rfl
              · rename_i hl
                have htakes : ¬ loopTakes (adding, m) = true := by
                  simp [loopTakes, hlist', hl]
                rw [if_neg htakes, List.foldl_cons]
                split
                · rename_i hi
                  rw [ih]
                  subst hi
                  rfl
                · rename_i hi
                  rw [ih]
                  simp [handleModeStep, ho, hk, hi]

/-! ### The op flags -/

/-- What decides about the op flags of a channel. -/
structure OpView where
  opped : Bool
  requested : Bool
  members : List (Str × Bool)
deriving DecidableEq, Repr

def opView (c : Chan) : OpView :=
  ⟨c.iAmOpped, c.opRequestPending, c.roster.map fun r => (r.nick, r.isOp)⟩

/-- The op state of the whole bot. -/
def opViews (b : BotState) : List OpView := b.chans.map opView

/-- The first member called `nick`, with its flag set. -/
def setOp (nick : Str) (adding : Bool) (members : List (Str × Bool)) : List (Str × Bool) :=
  match members.findIdx? fun r => eqIc r.1 nick with
  | some i => members.modify i fun r => (r.1, adding)
  | none => members

/-- What an `o` does to the op state of its channel. -/
def opChangeView (me : Str) (adding : Bool) (arg : Str) (v : OpView) : OpView :=
  if eqIc arg me then
    let members := setOp me adding v.members
    if adding then ⟨true, false, members⟩
    else ⟨false, v.requested, if v.requested then members else []⟩
  else { v with members := setOp arg adding v.members }

theorem modify_congr {α : Type} {f g : α → α} {i : Nat} {xs : List α}
    (h : ∀ x, xs[i]? = some x → f x = g x) : xs.modify i f = xs.modify i g := by
  refine List.ext_getElem? fun j => ?_
  simp only [List.getElem?_modify, Option.map_eq_map]
  by_cases hij : i = j
  · subst hij
    cases hx : xs[i]? with
    | none => rfl
    | some x => simp [h x hx]
  · simp [hij]

theorem map_modify {α β : Type} {f : α → α} {g : β → β} {v : α → β} (h : ∀ x, v (f x) = g (v x))
    (xs : List α) (i : Nat) : (xs.modify i f).map v = (xs.map v).modify i g := by
  refine List.ext_getElem? fun j => ?_
  simp only [List.getElem?_modify, List.getElem?_map, Option.map_eq_map, Option.map_map]
  congr 1
  funext x
  by_cases hij : i = j <;> simp [hij, h]

theorem opViews_withChan (b : BotState) (ci : Nat) {f : Chan → Chan} {g : OpView → OpView}
    (h : ∀ c, opView (f c) = g (opView c)) : opViews (withChan b ci f) = (opViews b).modify ci g :=
  map_modify h b.chans ci

theorem opViews_withChan_of_eq (b : BotState) (ci : Nat) {f : Chan → Chan}
    (h : ∀ c, opView (f c) = opView c) : opViews (withChan b ci f) = opViews b := by
  rw [opViews_withChan b ci (g := id) h, List.modify_id]

theorem members_withEntry {c : Chan} {nick : Str} {f : RosterEntry → RosterEntry}
    {g : Str × Bool → Str × Bool} (h : ∀ r, ((f r).nick, (f r).isOp) = g (r.nick, r.isOp)) :
    opView (withEntry c nick f) =
      { opView c with
        members :=
          match (opView c).members.findIdx? fun r => eqIc r.1 nick with
          | some i => (opView c).members.modify i g
          | none => (opView c).members } := by
  have hidx : ((opView c).members.findIdx? fun r => eqIc r.1 nick) = Chanenf.rfind c nick := by
    simp [opView, Chanenf.rfind, List.findIdx?_map, Function.comp_def]
  unfold withEntry
  cases hr : Chanenf.rfind c nick with
  | none =>
      rw [hr] at hidx
      simp only [hidx]
  | some i =>
      rw [hr] at hidx
      simp only [hidx]
      simp only [opView, OpView.mk.injEq, true_and]
      exact map_modify (v := fun r : RosterEntry => (r.nick, r.isOp)) h c.roster i

theorem opViews_ircPrintf (b : BotState) (line : Str) :
    opViews (ircPrintf b line) = opViews b ∧ (ircPrintf b line).currentNick = b.currentNick := by
  obtain ⟨out, heq, -⟩ := ircPrintf_eq b line
  rw [heq]
  exact ⟨rfl, rfl⟩

theorem opViews_grantHeldOps (b : BotState) (ci : Nat) :
    opViews (grantHeldOps b ci) = opViews b ∧ (grantHeldOps b ci).currentNick = b.currentNick := by
  obtain ⟨out, names, heq, -⟩ := grantHeldOps_eq b ci
  rw [heq]
  exact ⟨opViews_withChan_of_eq b ci fun c => rfl, rfl⟩

/-- The bot's own ops, in terms of the op state. -/
theorem opViews_ownOp (b : BotState) (ci : Nat) (adding : Bool) {arg : Str}
    (hme : eqIc arg b.currentNick = true) :
    opViews (ownOp b ci adding) = (opViews b).modify ci (opChangeView b.currentNick adding arg) ∧
      (ownOp b ci adding).currentNick = b.currentNick := by
  have hflag (c : Chan) : opView (withEntry { c with iAmOpped := adding } b.currentNick fun r =>
      { r with isOp := adding }) =
        ⟨adding, (opView c).requested, setOp b.currentNick adding (opView c).members⟩ := by
    rw [members_withEntry (g := fun r => (r.1, adding)) fun r => rfl]
    rfl
  have hfirst := opViews_withChan b ci
    (g := fun v => ⟨adding, v.requested, setOp b.currentNick adding v.members⟩) hflag
  unfold ownOp
  dsimp only
  cases adding with
  | true =>
      rw [if_pos rfl]
      obtain ⟨hview, hnick⟩ := opViews_grantHeldOps (withChan (withChan b ci fun c =>
        withEntry { c with iAmOpped := true } b.currentNick fun r => { r with isOp := true }) ci
          fun c => { c with
            enfDirty := true, enfOpsCheck := true, opRequestPending := false
            opRequestRetryCount := 0 }) ci
      refine ⟨?_, hnick⟩
      have hdone (s : BotState) := opViews_withChan s ci
        (f := fun c => { c with
          enfDirty := true, enfOpsCheck := true, opRequestPending := false
          opRequestRetryCount := 0 })
        (g := fun v => { v with requested := false }) fun c => rfl
      rw [hview, hdone, hfirst, List.modify_modify_eq]
      refine modify_congr fun v _ => ?_
      simp [opChangeView, hme]
  | false =>
      rw [if_neg (by simp)]
      -- whether a request was pending is read after the flag has been cleared
      have hpending : ∀ v, (opViews b)[ci]? = some v →
          ((withChan b ci fun c => withEntry { c with iAmOpped := false } b.currentNick
            fun r => { r with isOp := false }).chans.getD ci {}).opRequestPending = v.requested := by
        intro v hv
        simp only [opViews, List.getElem?_map, Option.map_eq_some_iff] at hv
        obtain ⟨c, hc, rfl⟩ := hv
        rw [List.getD_eq_getElem?_getD, withChan, List.getElem?_modify_eq, hc]
        exact congrArg OpView.requested (hflag c)
      split
      · rename_i hreq
        refine ⟨?_, rfl⟩
        rw [hfirst]
        refine modify_congr fun v hv => ?_
        have hv' : v.requested = true := (hpending v hv).symm.trans hreq
        simp [opChangeView, hme, hv']
      · rename_i hreq
        refine ⟨?_, (opViews_ircPrintf _ _).2⟩
        have hwho (s : BotState) (t : Int) :=
          opViews_withChan_of_eq s ci (f := fun c => { c with lastWhoRequest := t }) fun c => rfl
        have hclear (s : BotState) := opViews_withChan s ci (f := fun c => { c with roster := [] })
          (g := fun v => { v with members := [] }) fun c => rfl
        rw [hwho, (opViews_ircPrintf _ _).1, hclear, hfirst, List.modify_modify_eq]
        refine modify_congr fun v hv => ?_
        have hv' : v.requested = false := by
          rw [← hpending v hv]
          simpa using hreq
        simp [opChangeView, hme, hv']

/-- **An `o` depends on the op state only.** -/
theorem opViews_opChange (b : BotState) (ci : Nat) (adding : Bool) (arg : Str) :
    opViews (opChange b ci adding arg) =
        (opViews b).modify ci (opChangeView b.currentNick adding arg) ∧
      (opChange b ci adding arg).currentNick = b.currentNick := by
  unfold opChange
  split
  · rename_i hme
    exact opViews_ownOp b ci adding hme
  · rename_i hme
    refine ⟨opViews_withChan b ci fun c => ?_, rfl⟩
    rw [members_withEntry (g := fun r => (r.1, adding)) fun r => rfl]
    simp [opChangeView, hme, setOp]

theorem opView_withEntry {c : Chan} {nick : Str} {f : RosterEntry → RosterEntry}
    (h : ∀ r, ((f r).nick, (f r).isOp) = (r.nick, r.isOp)) :
    opView (withEntry c nick f) = opView c := by
  rw [members_withEntry (g := id) h]
  simp only [List.modify_id]
  split <;> rfl

/-- `chanlive::apply` leaves the op state alone. -/
theorem opView_applyLetter (is : Isupport) (now : Int) (from324 : Bool) (c : Chan) (adding : Bool)
    (m : UInt8) (a : Option Str) :
    opView (applyLetter is now from324 c adding m a) = opView c := by
  unfold applyLetter
  split
  · split
    · split
      · rfl
      · split
        · unfold banAdd
          split
          · rfl
          · split
            · rfl
            · split <;> rfl
        · unfold banDel
          split <;> rfl
    · rfl
  · split
    · split <;> rfl
    · split
      · split
        · split <;> rfl
        · rfl
      · split
        · split
          · refine opView_withEntry fun r => ?_
            split
            · rfl
            · split <;> rfl
          · rfl
        · split <;> rfl

theorem opViews_apply (b : BotState) (ci : Nat) (modes args : Str) (from324 : Bool) :
    opViews (apply b ci modes args from324) = opViews b := by
  refine opViews_withChan_of_eq b ci fun c => ?_
  have hfold (xs : List ((Bool × UInt8) × Option Str)) : ∀ c,
      opView (xs.foldl (applyStep b.isup b.now from324) c) = opView c := by
    induction xs with
    | nil => exact fun c => rfl
    | cons x xs ih =>
        intro c
        rw [List.foldl_cons, ih]
        unfold applyStep
        split
        · rfl
        · exact opView_applyLetter _ _ _ _ _ _ _
  rw [applyLoop_eq, hfold]
  split <;> rfl

/-! ### The two readings of a MODE line -/

/-- The `o` changes of a MODE line with the arguments they take, when the letters
of `takes` have one. -/
def opChanges (takes : Bool × UInt8 → Bool) (modes args : Str) :
    List ((Bool × UInt8) × Option Str) :=
  Lib.ArgWalk.chosen takes (·.2 == byte 'o') (signed true modes) (tokens args)

/-- `o` changes carried out one after the other; one without an argument is passed
over. -/
def opFold (ci : Nat) (b : BotState) (changes : List ((Bool × UInt8) × Option Str)) : BotState :=
  changes.foldl (fun b x => x.2.elim b (opChange b ci x.1.1)) b

/-- The state after the `o` changes that ISUPPORT reads in the line. -/
def prescribed (b : BotState) (channel modes args : Str) : BotState :=
  match find b channel with
  | none => b
  | some ci => opFold ci b (opChanges (isupTakes b.isup) modes args)

/-- The bot's own ops and every member's op flag, in each channel. -/
def opFlags (b : BotState) : List (Bool × List (Str × Bool)) :=
  b.chans.map fun c => (c.iAmOpped, c.roster.map fun r => (r.nick, r.isOp))

/-- The two parsers agree on a MODE line. -/
structure ParsersAgree (b : BotState) (channel modes args : Str) : Prop where
  arguments : opChanges loopTakes modes args = opChanges (isupTakes b.isup) modes args
  flags : opFlags (handleModeChange b channel modes args) =
    opFlags (prescribed b channel modes args)

/-- Ahead of each `o`, as many letters take an argument by the loop's list as by
ISUPPORT, or else the two arguments are the same. -/
def ArgsLineUp (is : Isupport) (modes args : Str) : Prop :=
  ∀ (i : Nat) (adding : Bool), (signed true modes)[i]? = some (adding, byte 'o') →
    (tokens args)[Lib.ArgWalk.place loopTakes (signed true modes) i]? =
      if is.modeHasArg (byte 'o') adding then
        (tokens args)[Lib.ArgWalk.place (isupTakes is) (signed true modes) i]?
      else none

theorem arguments_eq_iff (is : Isupport) (modes args : Str) :
    opChanges loopTakes modes args = opChanges (isupTakes is) modes args ↔
      ArgsLineUp is modes args := by
  have hloop (adding : Bool) : loopTakes (adding, byte 'o') = true := by
    cases adding <;> decide
  unfold opChanges ArgsLineUp
  rw [Lib.ArgWalk.chosen_eq_iff]
  constructor
  · intro h i adding hi
    have hgiven := h i (adding, byte 'o') hi (by simp)
    simp only [Lib.ArgWalk.given, hi, Option.bind_some, hloop, if_true] at hgiven
    exact hgiven
  · rintro h i ⟨adding, m⟩ hi hm
    obtain rfl : m = byte 'o' := by simpa using hm
    simp only [Lib.ArgWalk.given, hi, Option.bind_some, hloop, if_true]
    exact h i adding hi

/-- `o` changes, on the op state. -/
def opFoldView (me : Str) (ci : Nat) (v : List OpView)
    (changes : List ((Bool × UInt8) × Option Str)) : List OpView :=
  changes.foldl (fun v x => x.2.elim v fun arg => v.modify ci (opChangeView me x.1.1 arg)) v

theorem opViews_opFold (ci : Nat) (changes : List ((Bool × UInt8) × Option Str)) :
    ∀ b : BotState, opViews (opFold ci b changes) =
      opFoldView b.currentNick ci (opViews b) changes := by
  induction changes with
  | nil => exact fun b => rfl
  | cons x changes ih =>
      intro b
      obtain ⟨x, arg⟩ := x
      cases arg with
      | none => exact ih b
      | some arg =>
          obtain ⟨hview, hnick⟩ := opViews_opChange b ci x.1 arg
          have hrest := ih (opChange b ci x.1 arg)
          rw [hview, hnick] at hrest
          exact hrest

/-- Of the loop, only the `o` changes touch the op state. -/
theorem opViews_foldl_step (ci : Nat) (managed : Bool) (xs : List ((Bool × UInt8) × Option Str)) :
    ∀ b : BotState, opViews (xs.foldl (handleModeStep ci managed) b) =
      opFoldView b.currentNick ci (opViews b) (xs.filter (·.1.2 == byte 'o')) := by
  induction xs with
  | nil => exact fun b => rfl
  | cons x xs ih =>
      rintro b
      obtain ⟨⟨adding, m⟩, arg⟩ := x
      rw [List.foldl_cons, ih]
      by_cases ho : m = byte 'o'
      · rw [List.filter_cons_of_pos (by simpa using ho)]
        cases arg with
        | none => simp [handleModeStep, ho, opFoldView]
        | some arg =>
            obtain ⟨hview, hnick⟩ := opViews_opChange b ci adding arg
            simp [handleModeStep, ho, opFoldView, hview, hnick]
      · rw [List.filter_cons_of_neg (by simpa using ho)]
        have hkeep : opViews (handleModeStep ci managed b ((adding, m), arg)) = opViews b ∧
            (handleModeStep ci managed b ((adding, m), arg)).currentNick = b.currentNick := by
          unfold handleModeStep
          rw [if_neg ho]
          split
          · refine ⟨opViews_withChan_of_eq b ci fun c => ?_, rfl⟩
            unfold keyChange
            split
            · rfl
            · split
              · split <;> rfl
              · rfl
          · split
            · exact ⟨opViews_withChan_of_eq b ci fun c => rfl, rfl⟩
            · exact ⟨rfl, rfl⟩
        rw [hkeep.1, hkeep.2]

/-- The op state after a MODE line. -/
theorem opViews_handleModeChange (b : BotState) (channel modes args : Str) :
    opViews (handleModeChange b channel modes args) =
      match find b channel with
      | none => opViews b
      | some ci => opFoldView b.currentNick ci (opViews b) (opChanges loopTakes modes args) := by
  unfold handleModeChange
  cases find b channel with
  | none => rfl
  | some ci =>
      dsimp only
      rw [handleModeLoop_eq, opViews_foldl_step]
      have happly : opViews (if args.length < 1024 then apply b ci modes args false else b) =
            opViews b ∧
          (if args.length < 1024 then apply b ci modes args false else b).currentNick =
            b.currentNick := by
        split
        · exact ⟨opViews_apply b ci modes args false, rfl⟩
        · exact ⟨rfl, rfl⟩
      rw [happly.1, happly.2]
      rfl

theorem opFlags_eq (b : BotState) : opFlags b = (opViews b).map fun v => (v.opped, v.members) := by
  simp [opFlags, opViews, opView, Function.comp_def]

/-- **When the two parsers agree**: exactly when the letters ahead of each `o` put
it at the same argument. -/
theorem parsersAgree_iff (b : BotState) (channel modes args : Str) :
    ParsersAgree b channel modes args ↔ ArgsLineUp b.isup modes args := by
  rw [← arguments_eq_iff]
  constructor
  · exact ParsersAgree.arguments
  · intro hargs
    refine ⟨hargs, ?_⟩
    rw [opFlags_eq, opFlags_eq, opViews_handleModeChange, hargs]
    unfold prescribed
    cases find b channel with
    | none => rfl
    | some ci => rw [opViews_opFold]

/-- On a server whose argument letters are those of the loop, the parsers always
agree. -/
theorem parsersAgree_of_sameLetters {b : BotState} (h : ∀ x, loopTakes x = isupTakes b.isup x)
    (channel modes args : Str) : ParsersAgree b channel modes args := by
  rw [parsersAgree_iff, ← arguments_eq_iff, funext h]

/-! ### A server with halfops -/

/-- A bot in one channel with `a` and `b`, on a server with halfops. -/
def halfops : BotState :=
  { currentNick := str "me"
    isup := { prefixModes := str "ohv", prefixSyms := str "@%+" }
    chans := [{ name := str "#c", roster := [{ nick := str "a" }, { nick := str "b" }] }] }

/-- `+ho a b` gives `b` ops; the bot notes them for `a`. -/
theorem not_parsersAgree :
    ¬ ∀ (b : BotState) (channel modes args : Str), ParsersAgree b channel modes args := by
  intro hall
  have hflags := (hall halfops (str "#c") (str "+ho") (str "a b")).flags
  revert hflags
  decide

end IrcBot.IrcParser

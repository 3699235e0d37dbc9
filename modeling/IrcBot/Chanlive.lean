/-
# Live channel state from the server (`chanlive.rs`)

What the server's ISUPPORT says about mode letters, the walk of a MODE line it
drives, and the `mode` job that moves the live modes to the stored ones.

* `applyLoop_eq` — the walk is a fold over the letters with the arguments that
  ISUPPORT assigns to them.
* `modeSync_eq` — the job only queues lines.
-/
import IrcBot.Chancfg
import IrcBot.Chanenf
import IrcBot.Lib.ArgWalk

namespace IrcBot

/-! ### ISUPPORT -/

namespace Isupport

def isPrefixMode (is : Isupport) (m : UInt8) : Bool := m ≠ 0 && is.prefixModes.contains m

/-- Does MODE letter `m` take an argument when set (`adding`) or cleared? -/
def modeHasArg (is : Isupport) (m : UInt8) (adding : Bool) : Bool :=
  if is.isPrefixMode m then true
  else if is.cmA.contains m || is.cmB.contains m then true
  else if is.cmC.contains m then adding
  else false

/-- min(MAXLIST, BAN_LIST_CAP). -/
def banCap (is : Isupport) : Nat :=
  (min (if 0 < is.maxlistB then is.maxlistB else maxlistDefault) banListCap).toNat

end Isupport

namespace Chanlive

open Cstr Chancfg Auth

def allDigits (s : Str) : Bool := !s.isEmpty && s.length ≤ 6 && s.all isDigit

/-! ### Live modes and bans -/

/-- Bit of a mode letter in the live flags; 0 if it is not a letter. -/
def liveBit (letter : UInt8) : UInt64 :=
  if 97 ≤ letter ∧ letter ≤ 122 then 1 <<< (letter - 97).toUInt64
  else if 65 ≤ letter ∧ letter ≤ 90 then 1 <<< (26 + (letter - 65)).toUInt64
  else 0

def liveHas (c : Chan) (letter : UInt8) : Bool :=
  liveBit letter != 0 && c.liveFlags &&& liveBit letter != 0

/-- The live flags with `letter` set or cleared. -/
def setLive (c : Chan) (letter : UInt8) (adding : Bool) : Chan :=
  { c with
    liveFlags :=
      if adding then c.liveFlags ||| liveBit letter else c.liveFlags &&& ~~~liveBit letter }

/-- `ban_add`: a mask that is too long or already listed is left out, and a list
never grows past the cap. -/
def banAdd (is : Isupport) (c : Chan) (mask setter : Str) (when : Int) : Chan :=
  if mask.isEmpty || maxMaskLen ≤ mask.length then c
  else if c.bans.any fun x => eqIc x.mask mask then c
  else if is.banCap ≤ c.bans.length then c
  else { c with bans := c.bans ++ [⟨mask, trunc setter (maxMemberNick + 32), when⟩] }

/-- `swap_remove`: the last element takes the place of the one removed. -/
def swapRemove {α : Type} (xs : List α) (i : Nat) : List α :=
  match xs.getLast? with
  | some last => (xs.set i last).dropLast
  | none => xs

def banDel (c : Chan) (mask : Str) : Chan :=
  match c.bans.findIdx? fun x => eqIc x.mask mask with
  | some i => { c with bans := swapRemove c.bans i }
  | none => c

/-- The roster entry of `nick`, changed. -/
def withEntry (c : Chan) (nick : Str) (f : RosterEntry → RosterEntry) : Chan :=
  match Chanenf.rfind c nick with
  | some i => { c with roster := c.roster.modify i f }
  | none => c

/-- The tokens `next(" ")` returns one after the other. -/
def tokens (s : Str) : List Str := (splitOn (byte ' ') s).filter (!·.isEmpty)

/-- `live_reset`: what one stay in a channel has shown is forgotten. -/
def liveReset (c : Chan) : Chan :=
  { c with
    bans := [], flood := [], liveFlags := 0, liveKey := [], liveLimit := 0, liveKnown := false
    liveCreated := 0, banListOpen := false, banListKnown := false, whoDone := false }

/-- `request`: the channel's modes and its ban list. -/
def request (b : BotState) (ci : Nat) : BotState :=
  let name := (b.chans.getD ci {}).name
  ircPrintf (ircPrintf b (str "MODE " ++ name ++ crlf)) (str "MODE " ++ name ++ str " +b" ++ crlf)

/-! ### `apply` -/

/-- What `apply` does with one letter and its argument. -/
def applyLetter (is : Isupport) (now : Int) (from324 : Bool) (c : Chan) (adding : Bool) (m : UInt8)
    (a : Option Str) : Chan :=
  if m = byte 'b' then
    match a with
    | some a => if from324 then c else if adding then banAdd is c a [] now else banDel c a
    | none => c
  else if m = byte 'k' then
    if adding then
      { setLive c m true with liveKey := a.elim c.liveKey (trunc · maxKey) }
    else { setLive c m false with liveKey := [] }
  else if m = byte 'l' then
    if adding then
      match a.filter allDigits with
      | some a => { setLive c m true with liveLimit := atoll a }
      | none => c
    else { setLive c m false with liveLimit := 0 }
  else if is.isPrefixMode m then
    -- `o` is kept by `handle_mode_change`, which also reacts to the bot's own
    match a with
    | some a =>
        withEntry c a fun r =>
          if m = byte 'h' then { r with isHalfop := adding }
          else if m = byte 'v' then { r with isVoice := adding }
          else r
    | none => c
  else if !is.modeHasArg m adding && isAlpha m then setLive c m adding
  else c

/-- The walk of `apply`. A letter whose argument is missing is passed over, but
for `k`. -/
def applyLoop (is : Isupport) (now : Int) (from324 : Bool) :
    Chan → Bool → Str → List Str → Chan
  | c, _, [], _ => c
  | c, adding, m :: ms, args =>
      if m = byte '+' then applyLoop is now from324 c true ms args
      else if m = byte '-' then applyLoop is now from324 c false ms args
      else if is.modeHasArg m adding then
        let a := args.head?
        let c :=
          if a.isNone && m ≠ byte 'k' then c else applyLetter is now from324 c adding m a
        applyLoop is now from324 c adding ms args.tail
      else applyLoop is now from324 (applyLetter is now from324 c adding m none) adding ms args

/-- `apply`: "<modes> [args...]" of a 324 or a MODE. -/
def apply (b : BotState) (ci : Nat) (modes args : Str) (from324 : Bool) : BotState :=
  withChan b ci fun c =>
    let c :=
      if from324 then { c with liveFlags := 0, liveKey := [], liveLimit := 0, liveKnown := true }
      else c
    applyLoop b.isup b.now from324 c true modes (tokens args)

/-! ### Members and settings -/

/-- `member_authorised`: whether `nick` is in the roster, and whether it is
authorised. -/
def memberAuthorised (b : BotState) (ci : Nat) (nick : Str) : Bool × Bool :=
  match b.chans[ci]?.bind fun c => c.roster.find? fun r => eqIc r.nick nick with
  | some r => (true, isAuthorised b r.hostmask)
  | none => (false, false)

/-- The `bitch` setting. -/
def bitch (b : BotState) (ci : Nat) : Bool := get b b.chans[ci]? .bitch ≠ 0

/-- `key_managed` (`chanenf.rs`): the stored modes hold a `k` and are enforced, so
the key is the bots'. -/
def keyManaged (b : BotState) (ci : Nat) : Bool :=
  get b b.chans[ci]? .enforceModes ≠ 0 &&
    (((splitOn (byte ' ') (getModes b b.chans[ci]?)).head?).any (·.contains (byte 'k')))

/-! ### The `mode` job -/

/-- The character a UTF-8 string starts with. -/
def firstChar : Str → Str
  | [] => []
  | c :: rest => c :: rest.takeWhile fun b => 0x80 ≤ b && b ≤ 0xBF

/-- The directions the stored letters ask for. -/
def parseStored (dir : UInt8 → Option Bool) (adding : Bool) : Str → Except Str (UInt8 → Option Bool)
  | [] => .ok dir
  | m :: ms =>
      if m = byte '+' then parseStored dir true ms
      else if m = byte '-' then parseStored dir false ms
      else if (str "imnpstkl").contains m then
        parseStored (fun x => if x = m then some adding else dir x) adding ms
      else .error (str "stored modes hold '" ++ firstChar (m :: ms) ++ str "'")

/-- The limit the stored modes ask for; 0 without one. -/
def wantedLimit (dir : UInt8 → Option Bool) (arg : Option Str) : Option Int :=
  if dir (byte 'l') = some true then
    (arg.filter allDigits).bind fun a =>
      if 1 ≤ atoll a ∧ atoll a ≤ 99999 then some (atoll a) else none
  else some 0

/-- The changes of a flag. -/
def flagChanges (c : Chan) (dir : UInt8 → Option Bool) (p : UInt8) : List Str :=
  match dir p with
  | none => []
  | some true => if !c.liveKnown || !liveHas c p then [[byte '+', p]] else []
  | some false => if !c.liveKnown || liveHas c p then [[byte '-', p]] else []

/-- The changes of the key. -/
def keyChanges (c : Chan) (dir : UInt8 → Option Bool) : List Str :=
  let liveK := liveHas c (byte 'k')
  let keyOk := !c.key.isEmpty && !c.key.any fun x => (str " ,\r\n\t").contains x
  let shown := liveK && !c.liveKey.isEmpty && c.liveKey != str "*"
  match dir (byte 'k') with
  | some true =>
      if keyOk && (!c.liveKnown || !liveK || c.liveKey != c.key) then
        (if shown && c.liveKey != c.key then [str "-k " ++ c.liveKey] else []) ++
          [str "+k " ++ c.key]
      else []
  | some false => if c.liveKnown && shown then [str "-k " ++ c.liveKey] else []
  | none => []

/-- The changes of the limit. -/
def limitChanges (c : Chan) (dir : UInt8 → Option Bool) (want : Int) : List Str :=
  let liveL := liveHas c (byte 'l')
  match dir (byte 'l') with
  | some true =>
      if !c.liveKnown || !liveL || c.liveLimit != want then [str "+l " ++ dec want] else []
  | some false => if !c.liveKnown || liveL then [str "-l"] else []
  | none => []

/-- The changes that move the live modes to the stored ones. -/
def modeChanges (b : BotState) (ci : Nat) (skipLimit requireKnown : Bool) : Except Str (List Str) :=
  let spec := getModes b b.chans[ci]?
  if 128 ≤ spec.length then .error (str "stored modes too long")
  else
    match tokens spec with
    | [] => .error (str "no stored modes")
    | letters :: rest =>
        (parseStored (fun _ => none) true letters).bind fun dir =>
          match wantedLimit dir rest.head? with
          | none => .error (str "stored limit is not usable")
          | some want =>
              let c := b.chans.getD ci {}
              if requireKnown && !c.liveKnown then .error (str "live modes not known yet")
              else
                .ok ((str "imnpst").flatMap (flagChanges c dir) ++ keyChanges c dir ++
                  (if skipLimit then [] else limitChanges c dir want))

/-- The line of one mode change. -/
def modeLine (channel change : Str) : Str := str "MODE " ++ channel ++ str " " ++ change ++ crlf

/-- `mode_sync`: how many changes there are, and the state with their lines queued
unless it is a dry run. -/
def modeSync (b : BotState) (ci : Nat) (skipLimit dry requireKnown : Bool) :
    Except Str Nat × BotState :=
  match modeChanges b ci skipLimit requireKnown with
  | .error note => (.error note, b)
  | .ok changes =>
      let name := (b.chans.getD ci {}).name
      (.ok changes.length,
        if dry then b else changes.foldl (fun b change => ircPrintf b (modeLine name change)) b)

/-- `apply_stored`. -/
def applyStored (b : BotState) (ci : Nat) : Except Str Nat × BotState :=
  modeSync b ci false false false

/-! ### The letters of a MODE line -/

/-- The letters of a mode string with their signs. -/
def signed : Bool → Str → List (Bool × UInt8)
  | _, [] => []
  | adding, m :: ms =>
      if m = byte '+' then signed true ms
      else if m = byte '-' then signed false ms
      else (adding, m) :: signed adding ms

/-- Which letters take an argument by ISUPPORT. -/
def isupTakes (is : Isupport) (x : Bool × UInt8) : Bool := is.modeHasArg x.2 x.1

/-- One letter of the walk, as a step over letters with their arguments. -/
def applyStep (is : Isupport) (now : Int) (from324 : Bool) (c : Chan)
    (x : (Bool × UInt8) × Option Str) : Chan :=
  if isupTakes is x.1 && x.2.isNone && x.1.2 ≠ byte 'k' then c
  else applyLetter is now from324 c x.1.1 x.1.2 x.2

/-- **The walk assigns arguments by ISUPPORT.** -/
theorem applyLoop_eq (is : Isupport) (now : Int) (from324 : Bool) (modes : Str) :
    ∀ (c : Chan) (adding : Bool) (args : List Str),
      applyLoop is now from324 c adding modes args =
        (Lib.ArgWalk.assign (isupTakes is) (signed adding modes) args).foldl
          (applyStep is now from324) c := by
  induction modes with
  | nil =>
      intro c adding args
      rfl
  | cons m ms ih =>
      intro c adding args
      unfold applyLoop signed
      split
      · exact ih c true args
      · split
        · exact ih c false args
        · unfold Lib.ArgWalk.assign
          split
          · rename_i htakes
            rw [if_pos (show isupTakes is (adding, m) = true from htakes), List.foldl_cons, ← ih]
            simp [applyStep, isupTakes, htakes]
          · rename_i htakes
            rw [if_neg (show ¬ isupTakes is (adding, m) = true from htakes), List.foldl_cons, ← ih]
            simp [applyStep, isupTakes, htakes]

/-! ### What these can change -/

/-- The walk keeps the name of the channel. -/
theorem name_applyLetter (is : Isupport) (now : Int) (from324 : Bool) (c : Chan) (adding : Bool)
    (m : UInt8) (a : Option Str) : (applyLetter is now from324 c adding m a).name = c.name := by
  unfold applyLetter
  split
  · split
    · split
      · rfl
      · split
        · unfold banAdd
          split
          · rfl
          · split
            · rfl
            · split <;> rfl
        · unfold banDel
          split <;> rfl
    · rfl
  · split
    · split <;> rfl
    · split
      · split
        · split <;> rfl
        · rfl
      · split
        · split
          · unfold withEntry
            split <;> rfl
          · rfl
        · split <;> rfl

theorem name_applyLoop (is : Isupport) (now : Int) (from324 : Bool) (modes : Str) (c : Chan)
    (adding : Bool) (args : List Str) :
    (applyLoop is now from324 c adding modes args).name = c.name := by
  rw [applyLoop_eq]
  generalize Lib.ArgWalk.assign (isupTakes is) (signed adding modes) args = xs
  induction xs generalizing c with
  | nil => rfl
  | cons x xs ih =>
      rw [List.foldl_cons, ih]
      unfold applyStep
      split
      · rfl
      · exact name_applyLetter _ _ _ _ _ _ _

/-- The job only queues lines. -/
theorem modeSync_eq (b : BotState) (ci : Nat) (skipLimit dry requireKnown : Bool) :
    ∃ out, (modeSync b ci skipLimit dry requireKnown).2 = { b with ircOut := out } := by
  have hfold (name : Str) (changes : List Str) : ∀ b : BotState, ∃ out,
      changes.foldl (fun b change => ircPrintf b (modeLine name change)) b =
        { b with ircOut := out } := by
    induction changes with
    | nil => exact fun b => ⟨_, rfl⟩
    | cons change changes ih =>
        intro b
        obtain ⟨line, hline, -⟩ := ircPrintf_eq b (modeLine name change)
        obtain ⟨out, hout⟩ := ih (ircPrintf b (modeLine name change))
        refine ⟨out, ?_⟩
        rw [List.foldl_cons, hout, hline]
  unfold modeSync
  split
  · exact ⟨_, rfl⟩
  · dsimp only
    split
    · exact ⟨_, rfl⟩
    · exact hfold _ _ b

end Chanlive

end IrcBot

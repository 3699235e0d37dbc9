/-
# MODE, KICK and QUIT events (`chanenf.rs`)

Who did what, after the live state has followed the line: an act of the bot's own that
comes back is acknowledged, an act against an authorised member is answered (a re-op, a
deop or a ban of who did it), and modes that are enforced are put back.

* `onModeLoop_eq` — the walk of a MODE line is a fold over its letters with the arguments
  that ISUPPORT assigns to them.
-/
import IrcBot.Roster

namespace IrcBot.ModeEvents

open Cstr Chancfg Chanenf Enforce Chanlive Jobs

/-! ### Marks -/

/-- `recent_ack`: an act that comes back ends its window. -/
def recentAck (b : BotState) (name act target : Str) : BotState :=
  let lk := lowerCopy (recentKeyOf name act target) (maxChan + 8 + maxMaskLen)
  { b with
    enfRecent := b.enfRecent.map fun r =>
      if r.whenMs != 0 && r.key == lk then { r with whenMs := 0 } else r }

/-- `jobs_drop`: the queued work of one kind in a channel is forgotten. -/
def jobsDrop (b : BotState) (ci : Nat) (act : JobAct) : BotState :=
  let name := (b.chans.getD ci {}).name
  { b with
    jobs := b.jobs.map fun j =>
      if j.used && j.act == act && eqIc j.chan name then { j with used := false } else j }

/-- `ban_hits_authorised`. -/
def banHitsAuthorised (b : BotState) (ci : Nat) (mask : Str) : Bool × BotState :=
  let hit := allowedMembersFill b ci mask
  (hit.1.isSome, hit.2)

/-- `on_quit`: somebody leaves all channels. -/
def onQuit (b : BotState) (nick : Str) : BotState :=
  if isMe b nick then b
  else
    { b with
      chans := b.chans.map fun c =>
        if c.status == .inside && (rfind c nick).isSome then
          { Roster.rremove c nick with enfDirty := true }
        else c }

section

variable (sha256 : Str → Str)

/-- `revenge`: `pre` hurt an authorised member; the first time within the ban time that
costs the ops, again it is a kick and a ban. -/
def revenge (b : BotState) (ci : Nat) (pre : Str) : BotState :=
  match nuhNick pre with
  | none => b
  | some nick =>
      let name := (b.chans.getD ci {}).name
      let off := offence b name pre
      if off.1 ≤ 1 then (jobSubmit sha256 off.2 ci .deop nick (str "revenge")).2
      else (requestBan sha256 off.2 name pre (str "revenge") true).2

/-! ### KICK -/

/-- Whether a member is authorised, with the caches filled. -/
def nickVerdict (b : BotState) (ci : Nat) (nick : Str) : Bool × BotState :=
  match b.chans[ci]?.bind (member · nick) with
  | some (i, e) => memberVerdict b ci i e
  | none => (false, b)

/-- `on_kick`: `pre` is nick!user@host, or the name of a server. -/
def onKick (b : BotState) (chan : Str) (pre : Option Str) (victim : Str) : BotState :=
  match inChan b chan with
  | none => b
  | some ci =>
      if isMe b victim then b
      else
        let name := (b.chans.getD ci {}).name
        let seen := nickVerdict b ci victim
        let b := recentAck seen.2 name (str "kick") victim
        let b := withChan b ci fun c => { Roster.rremove c victim with enfDirty := true }
        match pre.filter (·.contains (byte '!')) with
        | none => b
        | some p =>
            let b := Chanflood.event sha256 b name p .kick seen.1
            if seen.1 && get b b.chans[ci]? .revenge ≠ 0 then
              let known := chanNuhAuthorised b ci p
              if known.1 then known.2 else revenge sha256 known.2 ci p
            else b

/-! ### MODE -/

/-- Where a MODE line came from, and the settings it is judged by. -/
structure Source where
  pre : Str
  user : Bool
  server : Bool
  unauth : Bool
  own : Bool
  bitch : Bool
  protect : Bool
  revenge : Bool
  nethack : Bool
  halfops : Bool

/-- The source of a line on channel `ci`; somebody without a `!` is a server. -/
def source (b : BotState) (ci : Nat) (pre : Option Str) : Source × BotState :=
  let p := pre.getD []
  let user := pre.any (·.contains (byte '!'))
  let known := if user then chanNuhAuthorised b ci p else (true, b)
  let on (id : CsetId) : Bool := get b b.chans[ci]? id ≠ 0
  ({ pre := p, user, server := pre.isSome && !user, unauth := user && !known.1
     own := user && (nuhNick p).any (isMe b)
     bitch := on .bitch, protect := on .protectOps, revenge := on .revenge
     nethack := on .stopNetHack, halfops := b.isup.prefixModes.contains (byte 'h') },
    known.2)

/-- What the walk carries along. -/
structure Walk where
  bot : BotState
  modeChanged : Bool := false
  bansChanged : Bool := false
  /-- One line is answered once. -/
  revenged : Bool := false

/-- The bot's own acts that come back. -/
def ackOwn (b : BotState) (ci : Nat) (own adding : Bool) (m : UInt8) (a : Option Str) : BotState :=
  let name := (b.chans.getD ci {}).name
  let nick := a.filter (validNick b)
  if m = byte 'o' && nick.isSome then
    recentAck b name (if adding then str "reop" else str "deop") (nick.getD [])
  else if m = byte 'h' && !adding && nick.isSome then
    recentAck b name (str "dehalf") (nick.getD [])
  else if m = byte 'b' && !adding && a.any (safeToken · banMaskMax) then
    recentAck b name (str "unban") (a.getD [])
  else if own && m = byte 'l' then recentAck b name (str "limit") []
  else b

/-- The op floods; a server's modes (a netjoin) are none. -/
def countOps (b : BotState) (ci : Nat) (src : Source) (adding : Bool) (m : UInt8) (a : Option Str) :
    BotState :=
  let name := (b.chans.getD ci {}).name
  let nick := a.filter (validNick b)
  if src.user && !adding && m = byte 'o' && nick.isSome then
    let victim :=
      match b.chans[ci]?.bind (member · (nick.getD [])) with
      | some (i, e) => if isMe b e.nick then (true, b) else memberVerdict b ci i e
      | none => (false, b)
    Chanflood.event sha256 victim.2 name src.pre .deop victim.1
  else if src.user && adding && m = byte 'b' && a.any (safeToken · banMaskMax) then
    let hit := banHitsAuthorised b ci (a.getD [])
    Chanflood.event sha256 hit.2 name src.pre .ban hit.1
  else b

/-- An `o` on a member: ops that are not due are taken, ops that were due are put back. -/
def answerOp (ci : Nat) (src : Source) (w : Walk) (adding : Bool) (nick : Str) : Walk :=
  match w.bot.chans[ci]?.bind (member · nick) with
  | none => w
  | some (i, e) =>
      if isMe w.bot e.nick then w
      else
        let seen := memberVerdict w.bot ci i e
        if adding && !seen.1 then
          if src.bitch then
            { w with bot := (jobSubmit sha256 seen.2 ci .deop e.nick (str "bitch")).2 }
          else if src.nethack && src.server then
            { w with bot := (jobSubmit sha256 seen.2 ci .deop e.nick (str "stopnethack")).2 }
          else { w with bot := seen.2 }
        else if !adding && seen.1 && src.user && src.unauth && !src.own then
          let b :=
            if src.protect then (jobSubmit sha256 seen.2 ci .reop e.nick (str "protectops")).2
            else seen.2
          if src.revenge && !w.revenged then
            { w with bot := revenge sha256 b ci src.pre, revenged := true }
          else { w with bot := b }
        else { w with bot := seen.2 }

/-- A set `h` on a member. -/
def answerHalfop (ci : Nat) (src : Source) (w : Walk) (nick : Str) : Walk :=
  match w.bot.chans[ci]?.bind (member · nick) with
  | none => w
  | some (i, e) =>
      if !src.bitch || isMe w.bot e.nick then w
      else
        let seen := memberVerdict w.bot ci i e
        if seen.1 then { w with bot := seen.2 }
        else { w with bot := (jobSubmit sha256 seen.2 ci .dehalf e.nick (str "bitch")).2 }

/-- A `b`. -/
def answerBan (ci : Nat) (src : Source) (w : Walk) (adding : Bool) (a : Option Str) : Walk :=
  let w := { w with bansChanged := true }
  match a.filter fun a =>
      adding && src.revenge && !w.revenged && src.unauth && !src.own && safeToken a banMaskMax with
  | none => w
  | some a =>
      let hit := banHitsAuthorised w.bot ci a
      if hit.1 then { w with bot := revenge sha256 hit.2 ci src.pre, revenged := true }
      else { w with bot := hit.2 }

/-- A channel mode. A limit that somebody set makes a queued one stale. -/
def answerFlag (ci : Nat) (src : Source) (w : Walk) (adding : Bool) (m : UInt8) : Walk :=
  let w := { w with modeChanged := true }
  if m = byte 'l' && adding && (src.server || !src.unauth) then
    { w with
      bot := jobsDrop (withChan w.bot ci fun c => { c with enfLastLimit := w.bot.now }) ci .limit }
  else w

/-- One letter with its argument. -/
def onModeLetter (ci : Nat) (src : Source) (w : Walk) (adding : Bool) (m : UInt8) (a : Option Str) :
    Walk :=
  let w := { w with
    bot := countOps sha256 (ackOwn w.bot ci src.own adding m a) ci src adding m a }
  let nick := a.filter (validNick w.bot)
  if m = byte 'o' && nick.isSome then answerOp sha256 ci src w adding (nick.getD [])
  else if m = byte 'h' && adding && src.halfops && nick.isSome then
    answerHalfop sha256 ci src w (nick.getD [])
  else if m = byte 'b' then answerBan sha256 ci src w adding a
  else if (str "imnpstkl").contains m then answerFlag ci src w adding m
  else w

/-- The walk of `on_mode`. A letter whose argument is missing is passed over, but for `k`. -/
def onModeLoop (is : Isupport) (ci : Nat) (src : Source) : Walk → Bool → Str → List Str → Walk
  | w, _, [], _ => w
  | w, adding, m :: ms, args =>
      if m = byte '+' then onModeLoop is ci src w true ms args
      else if m = byte '-' then onModeLoop is ci src w false ms args
      else if is.modeHasArg m adding then
        let a := args.head?
        let w := if a.isNone && m ≠ byte 'k' then w else onModeLetter sha256 ci src w adding m a
        onModeLoop is ci src w adding ms args.tail
      else onModeLoop is ci src (onModeLetter sha256 ci src w adding m none) adding ms args

/-- What a line that touched the modes is answered with: modes that are as stored again end
the wait of a queued revert, others ask for one where they are enforced. -/
def modesAnswered (b : BotState) (ci : Nat) (own : Bool) : BotState :=
  let skipLimit := get b b.chans[ci]? .dynamicLimit ≠ 0
  let clean := (b.chans.getD ci {}).liveKnown &&
    match (modeSync b ci skipLimit true true).1 with
    | .ok changes => changes = 0
    | .error _ => true
  let b :=
    if clean then jobsDrop b ci .mode
    else if !own && get b b.chans[ci]? .enforceModes ≠ 0 then
      (jobSubmit sha256 b ci .mode [] (str "enforcemodes")).2
    else b
  if clean && own then recentAck b (b.chans.getD ci {}).name (str "moderevert") [] else b

/-- `on_mode`. What one line sends leaves together, when the walk is over. -/
def onMode (b : BotState) (chan : Str) (pre : Option Str) (modes args : Str) : BotState :=
  match inChan b chan with
  | none => b
  | some ci =>
      let src := source b ci pre
      let w := onModeLoop sha256 b.isup ci src.1 { bot := src.2 } true modes (tokens args)
      let b := if w.modeChanged then modesAnswered sha256 w.bot ci src.1.own else w.bot
      if w.bansChanged then withChan b ci fun c => { c with enfDirty := true } else b

/-! ### The walk as a fold -/

/-- One letter of the walk, with its argument. -/
def onModeStep (is : Isupport) (ci : Nat) (src : Source) (w : Walk)
    (x : (Bool × UInt8) × Option Str) : Walk :=
  if isupTakes is x.1 && x.2.isNone && x.1.2 ≠ byte 'k' then w
  else onModeLetter sha256 ci src w x.1.1 x.1.2 x.2

/-- **The walk assigns arguments by ISUPPORT.** -/
theorem onModeLoop_eq (is : Isupport) (ci : Nat) (src : Source) (modes : Str) :
    ∀ (w : Walk) (adding : Bool) (args : List Str),
      onModeLoop sha256 is ci src w adding modes args =
        (Lib.ArgWalk.assign (isupTakes is) (signed adding modes) args).foldl
          (onModeStep sha256 is ci src) w := by
  induction modes with
  | nil =>
      intro w adding args
      rfl
  | cons m ms ih =>
      intro w adding args
      unfold onModeLoop signed
      split
      · exact ih w true args
      · split
        · exact ih w false args
        · unfold Lib.ArgWalk.assign
          split
          · rename_i htakes
            rw [if_pos (show isupTakes is (adding, m) = true from htakes), List.foldl_cons, ← ih]
            simp [onModeStep, isupTakes, htakes]
          · rename_i htakes
            rw [if_neg (show ¬ isupTakes is (adding, m) = true from htakes), List.foldl_cons, ← ih]
            simp [onModeStep, isupTakes, htakes]

end

end IrcBot.ModeEvents

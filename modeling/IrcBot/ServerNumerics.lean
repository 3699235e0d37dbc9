/-
# Replies of the server (`chanlive.rs`, `irc_parser.rs`, `irc_client.rs`)

What the server says about itself (005), about a channel (324, 329, 367, 368), about its
members (352), and why it keeps the bot out. Whatever the server sends is checked before it
is kept.
-/
import IrcBot.JoinPart
import IrcBot.IrcParser
import IrcBot.Requests

namespace IrcBot.ServerNumerics

open Cstr Chancfg Chanlive IrcLine

/-! ### 005 -/

/-- A value of one to six digits that is positive. -/
def positive (val : Str) : Option Int :=
  if allDigits val ∧ 1 ≤ atoll val then some (atoll val) else none

/-- `MODES`. -/
def isupModes (is : Isupport) (neg : Bool) (val : Str) : Isupport :=
  if neg then { is with modes := isupportModesDefault }
  else if val.isEmpty then { is with modes := isupportModesMax }
  else match positive val with
    | some v => { is with modes := min v isupportModesMax }
    | none => is

/-- The walk over `MAXLIST`, "beI:100,k:5": letters, a colon, a number. `fuel` is at least
the length of the value. -/
def maxlistLoop : Nat → Isupport → Str → Isupport
  | 0, is, _ => is
  | fuel + 1, is, p =>
      match splitOnce (byte ':') p with
      | none => is
      | some (letters, rest) =>
          let num := rest.takeWhile (· ≠ byte ',')
          let is :=
            if letters.contains (byte 'b') then (positive num).elim is ({ is with maxlistB := · })
            else is
          match splitOnce (byte ',') rest with
          | none => is
          | some (_, next) => maxlistLoop fuel is next

/-- `MAXLIST`. -/
def isupMaxlist (is : Isupport) (neg : Bool) (val : Str) : Isupport :=
  if neg then { is with maxlistB := 0 } else maxlistLoop (val.length + 1) is val

/-- `MAXBANS`, where there was no `MAXLIST`. -/
def isupMaxbans (is : Isupport) (val : Str) : Isupport :=
  if is.maxlistB = 0 then (positive val).elim is ({ is with maxlistB := · }) else is

/-- `NICKLEN`. -/
def isupNicklen (is : Isupport) (neg : Bool) (val : Str) : Isupport :=
  if neg then { is with nicklen := nicklenDefault }
  else (positive val).elim is ({ is with nicklen := · })

/-- `PREFIX`, "(ohv)@%+": as many letters as symbols, at most 8. -/
def isupPrefix (is : Isupport) (neg : Bool) (val : Str) : Isupport :=
  if neg then { is with prefixModes := str "ov", prefixSyms := str "@+" }
  else
    match val.head?, splitOnce (byte ')') val.tail with
    | some c, some (letters, syms) =>
        if c ≠ byte '(' ∨ letters.isEmpty ∨ letters.length ≠ syms.length ∨ 9 ≤ letters.length ∨
            !letters.all isAlpha then is
        else { is with prefixModes := letters, prefixSyms := syms }
    | _, _ => is

/-- `CHANMODES`: four lists. One that names modes with an argument is not cut. -/
def isupChanmodes (is : Isupport) (neg : Bool) (val : Str) : Isupport :=
  if neg then is
  else
    match splitOn (byte ',') val with
    | a :: b :: c :: d :: _ =>
        if 64 ≤ a.length ∨ 64 ≤ b.length ∨ 64 ≤ c.length then is
        else { is with cmA := a, cmB := b, cmC := c, cmD := trunc d 64 }
    | _ => is

/-- The name and the value of a token, and whether it takes the value back. -/
def tokenParts (tok : Str) : Bool × Str × Str :=
  let neg := tok.head? = some (byte '-')
  let tok := if neg then tok.tail else tok
  (neg, (splitOnce (byte '=') tok).getD (tok, []))

/-- `isupport_token`. -/
def isupportToken (is : Isupport) (tok : Str) : Isupport :=
  let (neg, name, val) := tokenParts tok
  if name = str "MODES" then isupModes is neg val
  else if name = str "MAXLIST" then isupMaxlist is neg val
  else if name = str "MAXBANS" then isupMaxbans is val
  else if name = str "NICKLEN" then isupNicklen is neg val
  else if name = str "PREFIX" then isupPrefix is neg val
  else if name = str "CHANMODES" then isupChanmodes is neg val
  else is

/-- `isupport_parse`: the tokens up to the text. -/
def isupportParse (is : Isupport) (params : Str) : Isupport :=
  (((tokens params).tail.takeWhile fun tok => tok.head? ≠ some (byte ':')).filter
    (·.length < 120)).foldl isupportToken is

/-! ### 324, 329, 367, 368 -/

/-- `parse_ts`: one to twenty digits that fit. -/
def parseTs (s : Str) : Int :=
  if s.isEmpty || 20 < s.length || !s.all isDigit then 0
  else (s.foldl (digitStep false) (some 0)).getD 0

/-- `ban_list_end`. -/
def banListEnd (c : Chan) : Chan :=
  { c with
    bans := if c.banListOpen then c.bans else [], banListOpen := false, banListKnown := true }

/-- One ban of the list; the first one starts it anew. -/
def banListEntry (is : Isupport) (mask setter : Str) (when : Int) (c : Chan) : Chan :=
  banAdd is (if c.banListOpen then c else { c with bans := [], banListOpen := true }) mask setter when

/-- `numeric`: `rest` is what follows the channel. -/
def numericOn (b : BotState) (ci : Nat) (command rest : Str) : BotState :=
  if command = str "324" then
    let first := tokNext (str " ") rest
    let b := first.1.elim b fun modes => apply b ci modes first.2 true
    withChan b ci fun c => { c with enfDirty := true }
  else if command = str "329" then
    withChan b ci fun c =>
      { c with liveCreated := ((tokNext (str " ") rest).1.map parseTs).getD 0 }
  else if command = str "367" then
    match tokens rest with
    | [] => b
    | mask :: more =>
        withChan b ci (banListEntry b.isup mask (more.getD 0 []) ((more[1]?.map parseTs).getD 0))
  else if command = str "368" then
    withChan b ci fun c => { banListEnd c with enfDirty := true }
  else b

/-- `numeric`: the parameters are the bot's nick, the channel and the rest. -/
def numeric (b : BotState) (command params : Str) : BotState :=
  if 1024 ≤ params.length then b
  else
    let chan := tokNext (str " ") (tokNext (str " ") params).2
    match chan.1.bind (find b) with
    | none => b
    | some ci => numericOn b ci command chan.2

/-! ### 352 -/

/-- The prefix symbol of a mode letter is among `modes`. -/
def prefixSym (is : Isupport) (letter : UInt8) (modes : Str) : Bool :=
  ((is.prefixModes.findIdx? (· == letter)).bind (is.prefixSyms[·]?)).any modes.contains

/-- One member of a WHO reply. -/
def whoMember (b : BotState) (chan ident host nick modes : Str) : BotState :=
  let isOp := modes.contains (byte '@')
  let isMe := eqIc nick b.currentNick
  let who := nick ++ str "!" ++ ident ++ str "@" ++ host
  let b := if isMe then JoinPart.updateOwnHostmask b (trunc who maxMaskLen) else b
  match find b chan with
  | none => b
  | some ci =>
      withChan b ci fun c =>
        -- the bot's own ops count even when the roster is full
        let c := if isMe then { c with iAmOpped := isOp } else c
        if who.length < maxMaskLen then
          Roster.rosterSet c nick who isOp (prefixSym b.isup (byte 'h') modes)
            (prefixSym b.isup (byte 'v') modes)
        else c

/-- `on_who_reply` (352): the bot's nick, channel, ident, host, server, nick, modes. -/
def onWhoReply (b : BotState) (params : Str) : BotState :=
  match tokens params with
  | _ :: chan :: ident :: host :: _ :: nick :: modes :: _ => whoMember b chan ident host nick modes
  | _ => b

/-! ### Kept out -/

/-- `irc_trailing`: the text, or all parameters where there is none. -/
def ircTrailing (params : Str) : Str :=
  if params.head? = some (byte ':') then params.tail
  else (afterSpaceColon params).getD params
where
  /-- What follows the first " :". -/
  afterSpaceColon : Str → Option Str
    | c :: d :: rest =>
        if c = byte ' ' ∧ d = byte ':' then some rest else afterSpaceColon (d :: rest)
    | _ => none

/-- `refusal_sanitize`: without control characters, at most `cap - 1` bytes. -/
def refusalSanitize (src : Str) (cap : Nat) : Str :=
  trunc (src.map fun c => if c < 0x20 || c = 0x7f then byte '?' else c) cap

/-- `note_refusal`: what the server says as it refuses the link is kept, a 465 together with
the ERROR behind it. -/
def noteRefusal (b : BotState) (text : Str) (banNumeric : Bool) : BotState :=
  let kept :=
    if !b.ircRefusal.isEmpty ∧ b.ircRefusal.length + 3 + 1 < ircRefusalLen then
      b.ircRefusal ++ str " | "
    else b.ircRefusal
  let room := ircRefusalLen - 1 - min kept.length (ircRefusalLen - 1)
  { b with
    ircRefusal := kept ++ trunc (refusalSanitize text ircRefusalLen) (room + 1)
    ircRefusalBan := banNumeric || b.ircRefusalBan }

/-- The channel that the second parameter names. -/
def secondChan (b : BotState) (params : Str) : Option Nat := (secondTok params).bind (find b)

variable (P : Primitives)

/-- `on_lockout` (474, 475): the bot is not in the channel and asks for access. -/
def onLockout (b : BotState) (params : Str) (kind : ChanReq) : BotState :=
  match secondChan b params with
  | none => b
  | some ci =>
      let b := withChan b ci fun c => { c with status := .out }
      if (b.chans.getD ci {}).isManaged then (Requests.accessRequest P b ci kind).2 else b

/-- 473: the channel takes only who was invited. -/
def onInviteOnly (b : BotState) (params : Str) : BotState :=
  match secondChan b params with
  | none => b
  | some ci =>
      if (b.chans.getD ci {}).isManaged then (Requests.accessRequest P b ci .invite).2 else b

/-- 405: too many channels; the bot does not try that one again. -/
def onTooManyChannels (b : BotState) (params : Str) : BotState :=
  match secondChan b params with
  | none => b
  | some ci => withChan b ci fun c => { c with joinDisabled := true }

/-- `on_end_of_who` (315). -/
def onEndOfWho (b : BotState) (params : Str) : BotState :=
  match secondChan b params with
  | none => b
  | some ci => Requests.endOfWho P b ci

end IrcBot.ServerNumerics

/-
# One line from the server (`irc_parser.rs`)

`handleLine` takes a line apart into its prefix, its command and its parameters, and hands
these to the command's own handler, which cuts up the parameters by itself.
-/
import IrcBot.ModeEvents
import IrcBot.Nicks
import IrcBot.ServerNumerics

namespace IrcBot.HandleLine

open Cstr Chancfg Chanlive HubPush IrcLine

/-! ### Texts -/

def versionResponse : Str := str "A robot may not injure a human being"

/-- What a private line is handed to, once its sender, its target and its text are known: the
counters of the bot floods (`true` is `Bf::Ok`), the hosts that these ignore, the reply to a DCC
offer, and the frames of the other bots and of the operators. -/
structure Receivers where
  floodMsg : BotState → Str → Bool × BotState
  floodCtcp : BotState → Str → Bool × BotState
  hostIgnored : BotState → Str → Bool × BotState
  dccCtcp : BotState → Str → Str → BotState
  /-- A `~B2` of a trusted bot. -/
  botFrame : BotState → (ti : Nat) → (b64 nick : Str) → BotState
  /-- A `~A2A`. -/
  authFrame : BotState → (nick userHost dest arg : Str) → BotState
  /-- A `~A2` or a `~A2S`; one that does not open counts as text. -/
  commandFrame : BotState → (nick userHost dest b64 : Str) → (isSealed : Bool) → BotState

/-- Receivers that do nothing, for runs on concrete inputs. -/
def Receivers.idle : Receivers :=
  ⟨fun b _ => (true, b), fun b _ => (true, b), fun b _ => (false, b), fun b _ _ => b,
    fun b _ _ _ => b,
    fun b _ _ _ _ => b, fun b _ _ _ _ _ => b⟩

/-- Nick, user and host of a prefix. -/
def prefixParts (pre : Str) : Option Str × Option Str × Option Str :=
  let nick := tokNext (str "!") pre
  let user := tokNext (str "@") nick.2
  (nick.1, user.1, (tokNext [] user.2).1)

/-- The target and the text of a PRIVMSG or a NOTICE. -/
def textParts (params : Str) : Option Str × Option Str :=
  let dest := tokNext (str " ") params
  (dest.1, (tokNext [] dest.2).1.map stripColon)

def isChannel (dest : Str) : Bool := dest.head? = some (byte '#') || dest.head? = some (byte '&')

def nuhOf (nick user host : Str) : Str := nick ++ str "!" ++ user ++ str "@" ++ host

/-- `chanflood::on_text`. -/
def onText (sha256 : Str → Str) (b : BotState) (chan nick user host msg : Str) : BotState :=
  let nuh := nuhOf nick user host
  if maxMaskLen ≤ nuh.length then b
  else
    let ctcp := msg.head? = some 1 && !startsWithIc msg.tail (str "ACTION")
    Chanflood.event sha256 b chan nuh (if ctcp then .ctcp else .chan) false

section

variable (P : Primitives) (R : Receivers)

/-- A CTCP to the bot, without its delimiters. -/
def onCtcp (b : BotState) (nick dest : Str) (nuh : Option Str) (full : Bool) (ctcp : Str) :
    BotState :=
  if startsWithIc ctcp (str "DCC ") then
    -- only ever the reply to this bot's own passive offer
    if full && eqIc dest b.currentNick then R.dccCtcp b (nuh.getD []) ctcp else b
  else if eqIc ctcp (str "VERSION") then
    ircPrintf b (str "NOTICE " ++ nick ++ str " :\x01VERSION " ++ versionResponse ++ str "\x01" ++ crlf)
  else if startsWithIc ctcp (str "PING ") then
    ircPrintf b (str "NOTICE " ++ nick ++ str " :\x01" ++ ctcp ++ str "\x01" ++ crlf)
  else b

/-- `commands::handle_private_message`. Plain text only counts. -/
def handlePrivateMessage (b : BotState) (nick user host dest message : Str) : BotState :=
  if !eqIc dest b.currentNick then b
  else
    let userHost := trunc (nuhOf nick user host) 256
    if (str "~B2 ").isPrefixOf message then
      (Auth.trustedBotByHost b userHost).elim b fun ti => R.botFrame b ti (message.drop 4) nick
    else
      let ignored := R.hostIgnored b userHost
      if ignored.1 then ignored.2
      else if (str "~A2A ").isPrefixOf message then
        -- not a command: counts against the host's msg flood
        let ok := R.floodMsg ignored.2 userHost
        if ok.1 then R.authFrame ok.2 nick userHost dest (message.drop 5) else ok.2
      else if (str "~A2S ").isPrefixOf message then
        R.commandFrame ignored.2 nick userHost dest (message.drop 5) true
      else if (str "~A2 ").isPrefixOf message then
        R.commandFrame ignored.2 nick userHost dest (message.drop 4) false
      else (R.floodMsg ignored.2 userHost).2

/-- An ignored host, or quiet mode, gets no answer to a CTCP; a sender that is not known whole is
not counted. -/
def ctcpCounted (b : BotState) (nuh : Option Str) : Bool × BotState :=
  nuh.elim (true, b) (R.floodCtcp b)

/-- The sender of a private line, where it is known whole. -/
def srcNuh (nick : Str) (user host : Option Str) : Option Str :=
  (user.bind fun u => host.map fun h => nuhOf nick u h).filter (·.length < maxMaskLen)

def isCtcp (message : Str) : Bool :=
  2 ≤ message.length && message.head? = some 1 && message.getLast? = some 1

/-- `on_privmsg`, with the sender and the text cut out. -/
def privmsg (b : BotState) (nick : Str) (user host : Option Str) (dest message : Str) : BotState :=
  if isChannel dest then
    -- text to a channel: only the flood counters look at it
    match user, host with
    | some user, some host => onText P.sha256 b dest nick user host message
    | _, _ => b
  else
    let nuh := srcNuh nick user host
    if isCtcp message then
      let ok := ctcpCounted R b nuh
      if ok.1 then onCtcp R ok.2 nick dest nuh (user.isSome && host.isSome) message.tail.dropLast
      else ok.2
    else
      handlePrivateMessage R b nick (user.getD (str "(null)")) (host.getD (str "(null)")) dest message

/-- `on_privmsg`. -/
def onPrivmsg (b : BotState) (pre params : Str) : BotState :=
  match prefixParts pre, textParts params with
  | (some nick, user, host), (some dest, some message) => privmsg P R b nick user host dest message
  | _, _ => b

/-- `on_notice`, with the sender and the text cut out. Services answer every command with a
NOTICE: that is no flood. -/
def notice (b : BotState) (nick user host dest message : Str) : BotState :=
  if isChannel dest then onText P.sha256 b dest nick user host message
  else if eqIc dest b.currentNick && message.head? ≠ some 1 then
    let services := 4 ≤ nick.length && eqIc (nick.drop (nick.length - 4)) (str "Serv")
    let nuh := nuhOf nick user host
    if !services && nuh.length < maxMaskLen then (R.floodMsg b nuh).2 else b
  else b

/-- `on_notice`: a server's NOTICE counts for nothing. -/
def onNotice (b : BotState) (pre params : Str) : BotState :=
  if !pre.contains (byte '!') then b
  else
    match prefixParts pre, textParts params with
    | (some nick, some user, some host), (some dest, some message) =>
        notice P R b nick user host dest message
    | _, _ => b

/-! ### MODE and KICK -/

/-- A key or a +i that changed goes to the hub and to the bot's own config. -/
def shareModes (b : BotState) (target modes : Str) : BotState :=
  if modes.contains (byte 'k') || modes.contains (byte 'i') then
    match (find b target).filter fun ci =>
        (b.chans.getD ci {}).isManaged && (modes.contains (byte 'i') || !keyManaged b ci) with
    | none => b
    | some ci =>
        writeConfig (pushChannel (withChan b ci fun c =>
          { c with timestamp := lwwNextTs b.now c.timestamp, enfPending := true }) ci)
  else b

/-- `on_mode`, with the parameters cut out. -/
def channelMode (b : BotState) (pre : Option Str) (target modes args : Str) : BotState :=
  let b := IrcParser.handleModeChange b target modes args
  -- an oversized set of arguments is skipped
  let b :=
    if args.length < 1024 then ModeEvents.onMode P.sha256 b target pre modes args else b
  shareModes b target modes

/-- `on_mode`. -/
def onMode (b : BotState) (pre : Option Str) (params : Str) : BotState :=
  let target := tokNext (str " ") params
  let modes := tokNext (str " ") target.2
  match target.1.filter isChannel, modes.1 with
  | some target, some letters => channelMode P b pre target letters ((tokNext [] modes.2).1.getD [])
  | _, _ => b

/-- The bot was kicked. -/
def ownKick (b : BotState) (chan victim : Str) : BotState :=
  if eqIc victim b.currentNick then
    match find b chan with
    | none => b
    | some ci => withChan b ci fun c => liveReset { c with status := .out, iAmOpped := false }
  else b

/-- The KICK branch of `handle_line`. -/
def onKick (b : BotState) (pre : Option Str) (params : Str) : BotState :=
  let chan := tokNext (str " ") params
  match chan.1, (tokNext (str " ") chan.2).1 with
  | some chan, some victim => ownKick (ModeEvents.onKick P.sha256 b chan pre victim) chan victim
  | _, _ => b

/-! ### `handle_line` -/

/-- 367: one ban of a list. -/
def onBanList (b : BotState) (params : Str) : BotState :=
  let b := ServerNumerics.numeric b (str "367") params
  let chan := tokNext (str " ") (tokNext (str " ") params).2
  match chan.1, (tokNext (str " ") chan.2).1 with
  | some chan, some mask => Requests.unbanNoteBan b chan mask
  | _, _ => b

/-- 368: the end of a ban list. -/
def onEndOfBanList (b : BotState) (params : Str) : BotState :=
  let b := ServerNumerics.numeric b (str "368") params
  (secondTok params).elim b (Requests.unbanFinish b)

/-- A line that needs its sender. -/
def fromSender (pre : Option Str) (f : BotState → Str → BotState) (b : BotState) : BotState :=
  pre.elim b (f b)

/-- The server's answer to a PING of the bot's. -/
def ponged (b : BotState) : BotState := { b with lastPongTime := b.now, pongPending := false }

/-- The handler of each command. -/
def dispatch (b : BotState) (pre : Option Str) (command params : Str) : BotState :=
  if command = str "PONG" then ponged b
  else if command = str "004" then
    (secondTok params).elim b fun name => { b with actualServerName := trunc name 256 }
  else if command = str "001" then Nicks.onWelcome b params
  else if command = str "433" ∨ command = str "432" ∨ command = str "437" then
    Nicks.onNickRefused b command params
  else if command = str "465" ∨ command = str "463" then
    ServerNumerics.noteRefusal b (ServerNumerics.ircTrailing params) true
  else if command = str "ERROR" then
    ServerNumerics.noteRefusal b (ServerNumerics.ircTrailing params) false
  else if command = str "474" then ServerNumerics.onLockout P b params .unban
  else if command = str "475" then ServerNumerics.onLockout P b params .key
  else if command = str "005" then
    if params.length < 1024 then { b with isup := ServerNumerics.isupportParse b.isup params } else b
  else if command = str "324" ∨ command = str "329" then ServerNumerics.numeric b command params
  else if command = str "367" then onBanList b params
  else if command = str "368" then onEndOfBanList b params
  else if command = str "405" then ServerNumerics.onTooManyChannels b params
  else if command = str "473" then ServerNumerics.onInviteOnly P b params
  else if command = str "MODE" then onMode P b pre params
  else if command = str "352" then ServerNumerics.onWhoReply b params
  else if command = str "396" then
    (secondTok params).elim b fun _ => Nicks.requestOwnHostmask b
  else if command = str "315" then ServerNumerics.onEndOfWho P b params
  else if command = str "PRIVMSG" then fromSender pre (onPrivmsg P R · · params) b
  else if command = str "NOTICE" then fromSender pre (onNotice P R · · params) b
  else if command = str "JOIN" then fromSender pre (JoinPart.onJoin P.sha256 · · params) b
  else if command = str "PART" then fromSender pre (JoinPart.onPart · · params) b
  else if command = str "KICK" then onKick P b pre params
  else if command = str "QUIT" then
    fromSender pre (fun b p => (prefixNick p).elim b (ModeEvents.onQuit b)) b
  else if command = str "NICK" then fromSender pre (Nicks.onNick P.sha256 · · params) b
  else b

/-- Prefix, command and parameters; `none` where there are no parameters. -/
def splitLine (line : Str) : Option (Option Str × Str × Str) :=
  if line.head? = some (byte ':') then
    (splitOnce (byte ' ') line.tail).bind fun (pre, rest) =>
      (splitOnce (byte ' ') rest).map fun (command, params) => (some pre, command, params)
  else (splitOnce (byte ' ') line).map fun (command, params) => (none, command, params)

/-- `handle_line`. -/
def handleLine (b : BotState) (line : Str) : BotState :=
  if (str "PING :").isPrefixOf line then
    ponged (ircPrintf b (str "PONG :" ++ line.drop 6 ++ crlf))
  else
    match splitLine (trunc line maxBuffer) with
    | none => b
    | some (pre, command, params) => dispatch P R b pre command params

end

end IrcBot.HandleLine

/-
# Chats of admins (`dcc.rs`, `commands.rs`)

The bot never listens. An admin asks for a chat under seal, the bot makes a passive offer, the
admin's client answers with an address, and the bot connects out. What comes down the chat must be
sealed commands of that admin.

`World` is what these functions read and write. It also keeps a record, which nothing reads: what
the chats did, and the commands that were handed on.
-/
import IrcBot.Botflood
import IrcBot.Dcc
import IrcBot.DccLife

namespace IrcBot.DccChats

open Cstr Dcc DccAddr DccLife Lib.IpText

open Sendq (Wire A2rCtx)

/-! ### State -/

/-- `DccSession`. The number is that of the offer; only the record of what happened reads it. -/
structure Chat extends DccSession where
  token : Option Nat := none
  phaseSince : Int := 0
  lastActive : Int := 0
  botnick : Str := []
  userHost : Str := []
  uuid : Str := []
  name : Str := []
  peer : Str := []
  inbuf : Str := []
  no : Nat := 0
deriving DecidableEq, Repr

/-- What commands other than those of the chats read and write. -/
structure Outside where
  bot : BotState := {}
  flood : Botflood.BotFlood := {}
  wire : Wire := {}
  /-- The local address of the IRC socket. -/
  localAddr : Option IpAddr := none

/-- A command line that is handed to `admin_command` or `oper_command`. -/
structure Call where
  nick : Str
  userHost : Str
  who : Nat
  admin : Bool
  command : Str
  args : List Str
  line : Option Str

/-- The chats, and the record. -/
structure World extends Outside where
  a2r : A2rCtx := {}
  dcc : List Chat := List.replicate dccMaxSessions {}
  dccReply : Option Nat := none
  nextGen : Nat := 0
  offers : Nat := 0
  trace : List (Nat × Act) := []
  calls : List (BotState × Call) := []

/-- How a dial begins: it fails, the socket cannot be polled, or it is on its way. -/
inductive Dial where
  | failed (e : Str)
  | unpolled (e : Str)
  | started (sock : List Write)

/-- What a dialled socket says. -/
inductive Connected where
  | done
  | notYet
  | failed (e : Str)

namespace World

variable (P : Primitives)

def chat (w : World) (i : Nat) : Chat := w.dcc.getD i {}

def modifyChat (w : World) (i : Nat) (f : Chat → Chat) : World := { w with dcc := w.dcc.modify i f }

/-- One more act of the chat in a slot. -/
def note (w : World) (i : Nat) (a : Act) : World :=
  { w with trace := w.trace ++ [((w.chat i).no, a)] }

/-! ### Lines -/

def replies (w : World) : Replies :=
  { wire := w.wire, a2r := w.a2r, dcc := w.dcc.map (·.toDccSession), dccReply := w.dccReply }

/-- `irc_printf`. -/
def print (w : World) (line : Str) : World :=
  let r := Dcc.printf P w.replies line
  { w with
    wire := r.wire
    a2r := r.a2r
    dcc := List.zipWith (fun c s => { c with toDccSession := s }) w.dcc r.dcc }

/-- `PRIVMSG <nick> :<text>`. -/
def say (w : World) (nick text : Str) : World :=
  w.print P (str "PRIVMSG " ++ nick ++ str " :" ++ text ++ crlf)

def queueTo (w : World) (i : Nat) (text : Str) : World :=
  w.modifyChat i fun c => { c with toDccSession := queue c.toDccSession text }

def flushTo (w : World) (i : Nat) : World :=
  w.modifyChat i fun c => { c with toDccSession := flush c.toDccSession }

/-! ### The end of a chat -/

/-- `free`. -/
def free (w : World) (i : Nat) : World :=
  let w := if (w.chat i).phase = .free then w else w.note i .closed
  { w with
    dcc := w.dcc.set i {}
    dccReply := if w.dccReply = some i then none else w.dccReply }

/-- `close`: an open chat is told why first. -/
def close (w : World) (i : Nat) (reason : Option Str) : World :=
  (reason.elim w (w.queueTo i)).free i

/-- `give_up`. -/
def giveUp (w : World) (i : Nat) (why : Str) : World :=
  (w.say P (w.chat i).nick (str "DCC chat not opened: " ++ why)).free i

/-- `close_all`, one slot. -/
def closeOne (reason : Str) (w : World) (i : Nat) : World :=
  match (w.chat i).phase with
  | .opened => w.close i (some reason)
  | .free => w
  | .offered => w.free i
  | .connecting => w.free i

/-- `close_all`. -/
def closeAll (w : World) (reason : Str) : World :=
  (List.range w.dcc.length).foldl (closeOne reason) w

/-! ### An offer -/

/-- One slot of the loop that ends the user's earlier chat. -/
def replaceOne (uuid : Str) (w : World) (i : Nat) : World :=
  if (w.chat i).phase ≠ .free ∧ (w.chat i).uuid = uuid then
    if (w.chat i).phase = .opened then
      w.close i (some (str "Replaced by a new DCC request."))
    else w.free i
  else w

/-- The passive id: a positive int. -/
def tokenOf (rnd : Nat) : Nat := if rnd % 2 ^ 31 = 0 then 1 else rnd % 2 ^ 31

def offerText (botnick : Str) : Str :=
  str "DCC chat offered; accept it within " ++ dec dccOfferTimeout ++ str " s (irssi: /dcc chat " ++
    botnick ++ str "). I connect out to your client, so open its DCC port range in your firewall " ++
    str "and set its DCC address to your public IP. A client without passive DCC can /dcc chat " ++
    botnick ++ str " instead while this offer is open."

/-- `offer`, with four random bytes as a number. -/
def offer (w : World) (nick userHost : Str) (who : Nat) (rnd : Option Nat) : World :=
  if a2NickMax ≤ nick.length ∨ maxMaskLen ≤ userHost.length then
    w.say P nick (str "Error: your nick or mask is too long for a DCC chat.")
  else
    match w.localAddr, rnd, w.bot.userRecords[who]? with
    | none, _, _ =>
        w.say P nick (str "Error: cannot offer a DCC chat right now (no IRC connection).")
    | some _, none, _ => w.say P nick (str "Error: RNG failure.")
    | some _, some _, none => w
    | some ip, some rnd, some u =>
        let w := (List.range w.dcc.length).foldl (replaceOne u.uuid) w
        match w.dcc.findIdx? (·.phase == .free) with
        | none =>
            w.say P nick (str "Error: all " ++ decNat dccMaxSessions ++
              str " DCC chat slots are in use; try again later.")
        | some i =>
            let botnick := trunc w.bot.currentNick maxNick
            let w := w.modifyChat i fun s => { s with
              phase := .offered, sock := none, dccToken := tokenOf rnd, phaseSince := w.bot.now
              nick, botnick, userHost, uuid := u.uuid, name := u.name, no := w.offers }
            let w := { w with offers := w.offers + 1 }
            let w := w.note i (.offered u ⟨u.uuid, userHost, nick, botnick, tokenOf rnd⟩)
            let w := w.print P (str "PRIVMSG " ++ nick ++ str " :\x01DCC CHAT chat " ++ ownAddr ip ++
              str " 0 " ++ decNat (tokenOf rnd) ++ str "\x01" ++ crlf)
            w.say P nick (offerText botnick)

/-! ### The reply -/

/-- `Tok`, with blanks: at most `n` words. -/
def toks : Nat → Str → List Str
  | 0, _ => []
  | n + 1, s =>
      match tokNext (str " ") s with
      | (some x, rest) => x :: toks n rest
      | (none, _) => []

/-- `all_digits`. -/
def allDigits (s : Str) (maxlen : Nat) : Bool :=
  !s.isEmpty && s.length ≤ maxlen && s.all Cstr.isDigit

/-- `DCC CHAT chat <addr> <port> [<token>]`. -/
def chatRequest (ctcp : Str) : Option (Str × Str × Option Str) :=
  if 256 ≤ ctcp.length then none
  else
    match toks 7 ctcp with
    | dcc :: chat :: chat' :: addr :: port :: rest =>
        if 1 < rest.length then none
        else if eqIc dcc (str "DCC") && eqIc chat (str "CHAT") && eqIc chat' (str "chat") then
          some (addr, port, rest.head?)
        else none
    | _ => none

/-- What is wrong with the port of a reply. -/
def portFault (port : Str) : Option Str :=
  if !allDigits port 5 then some (str "your client's reply has no valid port.")
  else
    let n := Chancfg.number port
    if n = 0 then
      some (str "your client answered with a passive offer of its own; " ++
        str "it has to listen on a port for me to connect to.")
    else if n < dccMinPort ∨ 65535 < n then
      some (str "port " ++ decNat n ++ str " is not allowed (use " ++ decNat dccMinPort ++
        str "-65535).")
    else none

/-- `new_token`. -/
def newToken (w : World) (slot : Nat) : Nat × World :=
  let gen := max ((w.nextGen + 1) % 2 ^ 64) 1
  (gen * 16 % 2 ^ 64 + slot, { w with nextGen := gen })

/-- The slot of the first chat in the poll tokens. -/
def slotDcc0 : Nat := 2

def connectFailed (peer e : Str) : Str :=
  str "connecting to " ++ peer ++ str " failed: " ++ e ++ str "."

/-- The dial of a reply that is in order. -/
def startDial (w : World) (i : Nat) (userHost : Str) (sa : SocketAddr) (dial : Dial) : World :=
  let peer := sa.ip.text ++ str " port " ++ decNat sa.port
  let w := w.modifyChat i fun s => { s with peer }
  match dial with
  | .failed e => w.giveUp P i (connectFailed peer e)
  | .unpolled e => (w.newToken (slotDcc0 + i)).2.giveUp P i (connectFailed peer e)
  | .started sock =>
      let r := w.newToken (slotDcc0 + i)
      let w := r.2.note i (.dialled userHost sa)
      w.modifyChat i fun s => { s with
        sock := some sock, token := some r.1, phase := .connecting, phaseSince := w.bot.now }

/-- `handle_ctcp`, with what the dial comes to. -/
def handleCtcp (w : World) (userHost ctcp : Str) (dial : Dial) : World :=
  match w.dcc.findIdx? fun s => s.phase == .offered && eqIc s.userHost userHost,
    chatRequest ctcp with
  | some i, some (addr, port, token) =>
      let own (t : Str) : Bool := allDigits t 10 && Chancfg.number t == (w.chat i).dccToken
      if !token.all own then w
      else
        match portFault port with
        | some why => w.giveUp P i why
        | none =>
            match (parseAddr addr (Chancfg.number port)).filter addrAllowed with
            | none =>
                w.giveUp P i (str "your client sent an address I will not connect to; " ++
                  str "set its DCC address to your public IP.")
            | some sa => w.startDial P i userHost sa dial
  | _, _ => w

/-! ### The line opens -/

def openText (c : Chat) : Str :=
  c.botnick ++ str ": DCC chat open for " ++ c.name ++ str ". Type commands here or use /botcmd " ++
    c.botnick ++ str " <command> (the client script seals both); the replies come back here. " ++
    str "Anything that is not a sealed command closes this chat. Idle limit: " ++
    dec (dccIdleTimeout / 60) ++ str " min."

/-- `on_connect`. -/
def onConnect (w : World) (i : Nat) (st : Connected) : World :=
  if (w.chat i).sock.isNone then w
  else
    match st with
    | .notYet => w
    | .failed e =>
        w.giveUp P i (str "connecting to " ++ (w.chat i).peer ++ str " failed: " ++ e ++
          str ". Check that your firewall lets that port in.")
    | .done =>
        let w := w.modifyChat i fun s => { s with
          phase := .opened, phaseSince := w.bot.now, lastActive := w.bot.now }
        let w := w.note i .opened
        w.queueTo i (openText (w.chat i))

end World

end IrcBot.DccChats

/-
# Sending lines and frames (`irc_client.rs`, `hub_client.rs`)

What leaves the bot: `ircPrintf` hands one IRC line to the send queue, `sendFrame`
puts one frame on the hub link. Both append to the logs of the state, and do
little else: `ircPrintf_eq` and `SameButLink` say what they can change.

A reply to a person (PRIVMSG, NOTICE) may leave sealed or down a DCC chat
instead; the log shows it as it was handed over. No other line is rerouted.
-/
import IrcBot.State

namespace IrcBot

open Cstr

/-! ### IRC lines -/

/-- Exactly one IRC line: ends in CR LF, with no CR, LF or NUL before that. -/
def isSingleLine (line : Str) : Bool :=
  let body := line.take (line.length - 2)
  2 ≤ line.length && line.drop (line.length - 2) == [13, 10] &&
    !body.any fun c => c == 13 || c == 10 || c == 0

/-- `irc_printf` hands the line on. -/
def takesLine (b : BotState) (line : Str) : Bool :=
  b.connected && line.length < maxBuffer && isSingleLine line

/-- `irc_printf`: one finished line to the send queue, which keeps at most 510
bytes of it. -/
def ircPrintf (b : BotState) (line : Str) : BotState :=
  if takesLine b line then
    { b with ircOut := b.ircOut ++ [line.take (min (line.length - 2) sendqLineMax) ++ [13, 10]] }
  else b

def crlf : Str := [13, 10]

def Named.line : Named → Str
  | .op channel nick => str "MODE " ++ channel ++ str " +o " ++ nick ++ crlf
  | .invite nick channel => str "INVITE " ++ nick ++ str " " ++ channel ++ crlf

/-- `irc_printf` of a line that names somebody. -/
def ircPrintfNamed (b : BotState) (x : Named) : BotState :=
  if takesLine b x.line then { ircPrintf b x.line with named := b.named ++ [x] } else b

/-! ### Hub frames -/

/-- `disconnect` of the hub link. -/
def hubDisconnect (b : BotState) : BotState :=
  { b with link :=
    { b.link with
      sock := false
      connected := false
      authenticated := false
      connecting := false
      connectTime := 0
      authState := .none
      sessionKey := []
      currentHub := []
      lastConnectAttempt := b.now
      lastPongSent := 0
      presenceServer := []
      lastPresenceSent := 0 } }

/-- `send_raw` of one frame: false, after disconnecting, on a write error. -/
def sendRaw (b : BotState) (frame : UInt8 × Str) : Bool × BotState :=
  if !b.link.sock then (false, b)
  else
    match b.link.sendLeft with
    | some 0 => (false, hubDisconnect b)
    | left =>
        (true, { b with
          link := { b.link with sendLeft := left.map (· - 1) }
          hubOut := b.hubOut ++ [frame] })

/-- `send_frame`. The log keeps what the frame carries, before encryption. -/
def sendFrame (b : BotState) (cmd : UInt8) (payload : Str) : Bool × BotState :=
  if !b.link.authenticated || !b.link.sock then (false, b)
  else if maxBuffer - 64 < payload.length then (false, b)
  else sendRaw b (cmd, payload)

/-- `link_ready`. -/
def linkReady (b : BotState) : Bool :=
  !b.hubs.isEmpty && b.link.sock && b.link.authenticated

/-! ### What sending can change -/

/-- Sending on the hub link touches the link and the log of frames only. -/
structure SameButLink (b b' : BotState) : Prop where
  eq : b' = { b with link := b'.link, hubOut := b'.hubOut }

theorem SameButLink.refl (b : BotState) : SameButLink b b := ⟨rfl⟩

theorem SameButLink.trans {b₁ b₂ b₃ : BotState} (h : SameButLink b₁ b₂) (h' : SameButLink b₂ b₃) :
    SameButLink b₁ b₃ := by
  constructor
  rw [h'.eq, h.eq]

theorem sameButLink_hubDisconnect (b : BotState) : SameButLink b (hubDisconnect b) := ⟨rfl⟩

theorem sameButLink_sendRaw (b : BotState) (frame : UInt8 × Str) :
    SameButLink b (sendRaw b frame).2 := by
  unfold sendRaw
  split
  · exact .refl b
  · split
    · exact sameButLink_hubDisconnect b
    · exact ⟨rfl⟩

theorem sameButLink_sendFrame (b : BotState) (cmd : UInt8) (payload : Str) :
    SameButLink b (sendFrame b cmd payload).2 := by
  unfold sendFrame
  split
  · exact .refl b
  · split
    · exact .refl b
    · exact sameButLink_sendRaw b _

/-- A line appends to the log of lines, or nothing happens. -/
theorem ircPrintf_eq (b : BotState) (line : Str) :
    ∃ out, ircPrintf b line = { b with ircOut := b.ircOut ++ out } ∧
      ∀ l ∈ out, l = line.take (min (line.length - 2) sendqLineMax) ++ [13, 10] := by
  unfold ircPrintf
  split
  · exact ⟨_, rfl, by simp⟩
  · exact ⟨[], by simp, by simp⟩

/-! ### Whom the lines name -/

/-- From `b` to `b'` the bot queues lines that name somebody only as `Q` allows. -/
def NamesOnly (Q : Named → Prop) (b b' : BotState) : Prop :=
  ∃ names, b'.named = b.named ++ names ∧ ∀ x ∈ names, Q x

/-- Those lines, from `b` to `b'`. -/
def newNamed (b b' : BotState) : List Named := b'.named.drop b.named.length

section NamesOnly

variable {Q Q' : Named → Prop} {b b₁ b₂ : BotState}

theorem NamesOnly.of_eq (h : b₁.named = b.named) : NamesOnly Q b b₁ := ⟨[], by simp [h], by simp⟩

theorem NamesOnly.refl (b : BotState) : NamesOnly Q b b := .of_eq rfl

theorem NamesOnly.trans (h : NamesOnly Q b b₁) (h' : NamesOnly Q b₁ b₂) : NamesOnly Q b b₂ := by
  obtain ⟨names, heq, hall⟩ := h
  obtain ⟨names', heq', hall'⟩ := h'
  refine ⟨names ++ names', by rw [heq', heq, List.append_assoc], fun x hx => ?_⟩
  exact (List.mem_append.mp hx).elim (hall x) (hall' x)

theorem NamesOnly.mono (h : NamesOnly Q b b₁) (himp : ∀ x, Q x → Q' x) : NamesOnly Q' b b₁ := by
  obtain ⟨names, heq, hall⟩ := h
  exact ⟨names, heq, fun x hx => himp x (hall x hx)⟩

/-- Only the lines named so far count. -/
theorem NamesOnly.of_named (h : NamesOnly Q b b₁) (heq : b₂.named = b₁.named) :
    NamesOnly Q b b₂ := h.trans (.of_eq heq)

theorem NamesOnly.newNamed (h : NamesOnly Q b b₁) : ∀ x ∈ newNamed b b₁, Q x := by
  obtain ⟨names, heq, hall⟩ := h
  intro x hx
  rw [IrcBot.newNamed, heq, List.drop_left] at hx
  exact hall x hx

end NamesOnly

theorem named_ircPrintf (b : BotState) (line : Str) : (ircPrintf b line).named = b.named := by
  obtain ⟨out, heq, -⟩ := ircPrintf_eq b line
  rw [heq]

theorem named_sendFrame (b : BotState) (cmd : UInt8) (payload : Str) :
    (sendFrame b cmd payload).2.named = b.named := by
  rw [(sameButLink_sendFrame b cmd payload).eq]

/-- A line that names somebody is noted as such, or nothing happens. -/
theorem ircPrintfNamed_eq (b : BotState) (x : Named) :
    ∃ out names, ircPrintfNamed b x =
    { b with ircOut := b.ircOut ++ out, named := b.named ++ names } ∧
      ∀ y ∈ names, y = x := by
  unfold ircPrintfNamed
  split
  · obtain ⟨out, hline, -⟩ := ircPrintf_eq b x.line
    refine ⟨out, [x], ?_, by simp⟩
    rw [hline]
  · exact ⟨[], [], by simp, by simp⟩

theorem namesOnly_ircPrintfNamed (b : BotState) (x : Named) :
    NamesOnly (· = x) b (ircPrintfNamed b x) := by
  obtain ⟨out, names, heq, hnames⟩ := ircPrintfNamed_eq b x
  exact ⟨names, by rw [heq], hnames⟩

end IrcBot

/-
# What the hub asks of the bot (`hub_client.rs`)

`handleResponse` acts on one opened frame of the hub: ops for a requester, at
once or held until the bot's own +o, an invitation, a channel request the hub has
picked this bot for, a key, config data, or another bot's sealed command.

The frames that report activity times or upgrade the program print tables and
run programs; they are the parameter `rest`.
-/
import IrcBot.BotComms
import IrcBot.Chanlive
import IrcBot.HubSync

namespace IrcBot.HubRequests

open Cstr Chancfg HubPush HubSync Channel BotComms Chanlive

/-- The delimiter of the fields. -/
def pipe : Str := str "|"

/-- Field `i` of what was read, empty when missing. -/
def field (r : List Conv) (i : Nat) : Str := (r[i]?.map Conv.str).getD []

/-- The channel of that name, if the bot is in it. -/
def inChan (b : BotState) (channel : Str) : Option (Nat × Chan) :=
  (find b channel).bind fun ci =>
    (b.chans[ci]?.filter (·.status = .inside)).map fun c => (ci, c)

/-! ### Ops for a requester -/

/-- Op one nick of the held list, unless its time is over, it has left or it is
opped. -/
def grantHeld (ci : Nat) (b : BotState) (held : Str × Int) : BotState :=
  if opGrantHoldSecs < b.now - held.2 then b
  else
    match b.chans[ci]? with
    | none => b
    | some c =>
        if (c.roster.find? fun r => eqIc r.nick held.1).any (!·.isOp) then
          ircPrintfNamed b (.op c.name held.1)
        else b

/-- `grant_held_ops`: the bot's own +o has landed. -/
def grantHeldOps (b : BotState) (ci : Nat) : BotState :=
  (b.chans.getD ci {}).opGrantHeld.foldl (grantHeld ci)
    (withChan b ci fun c => { c with opGrantHeld := [] })

/-- The nick and the channel of an OP_GRANT, `requester_hostmask|channel`. -/
def readOpGrant (payload : Str) : Option (Str × Str) :=
  match sscanf payload [.set 255 pipe, .lit pipe, .word 64] with
  | [hostmask, chan] => some (maskNick hostmask.str maxNick, chan.str)
  | _ => none

/-- Hold an op that came in before the bot's own +o. -/
def holdOp (b : BotState) (ci : Nat) (nick : Str) : BotState :=
  withChan b ci fun c =>
    let held := c.opGrantHeld.filter fun h => b.now - h.2 ≤ opGrantHoldSecs && !eqIc h.1 nick
    { c with opGrantHeld := if held.length < opGrantHoldMax then held ++ [(nick, b.now)] else held }

/-- The OP_GRANT arm. -/
def opGrant (b : BotState) (payload : Str) : BotState :=
  match readOpGrant payload with
  | none => b
  | some (nick, chan) =>
      match inChan b chan with
      | none => b
      | some (ci, c) =>
          if c.iAmOpped then ircPrintfNamed b (.op chan nick) else holdOp b ci nick

/-- The OP_FAILED arm: the channel manager asks again in about 30 s. -/
def opFailed (b : BotState) : BotState :=
  { b with chans := b.chans.map fun c =>
      if c.opRequestPending then
        { c with opRequestPending := false, lastOpRequestTime := b.now - 30 }
      else c }

/-- The INVITE_REQUEST arm, `nick|channel`. -/
def inviteRequest (b : BotState) (payload : Str) : BotState :=
  match sscanf payload [.set 9 pipe, .lit pipe, .set 64 (str "\n")] with
  | [nick, chan] =>
      match inChan b chan.str with
      | some (_, c) => if c.iAmOpped then ircPrintfNamed b (.invite nick.str chan.str) else b
      | none => b
  | _ => b

/-! ### Channel requests the hub hands to one bot -/

/-- `chan_elect_cannot`: why the bot cannot do `kind` in `channel` right now. -/
def chanElectCannot (b : BotState) (kind channel : Str) : Option Str :=
  match inChan b channel with
  | none => some (str "not in channel")
  | some (_, c) =>
      if kind = str "key" then if c.key.isEmpty then some (str "no key") else none
      else if [str "op", str "invite", str "unban", str "mode"].contains kind then
        if !c.iAmOpped then some (str "not opped") else none
      else some (str "unknown request")

/-- `chan_do_nick_ok`: RFC 2812 nick characters, any length a network allows. -/
def chanDoNickOk (n : Str) : Bool :=
  !n.isEmpty && n.length ≤ chanDoNickMax && !n.head?.any (fun c => isDigit c || c == byte '-') &&
    n.all fun c => isAlpha c || isDigit c || (str "[]\\`_^\x7b\x7d|-").contains c

/-- `chan_done_send`. -/
def chanDoneSend (b : BotState) (id : Str) (ok : Bool) (detail : Str) : BotState :=
  let out := id ++ str "|" ++ (if ok then str "ok" else str "fail") ++ str "|" ++ detail
  if out.length < 192 then (sendFrame b cmdChanDone out).2 else b

/-- The CHAN_PROBE arm: could the bot do this right now? -/
def chanProbe (b : BotState) (payload : Str) : BotState :=
  match sscanf payload [.set 63 pipe, .lit pipe, .set 15 pipe, .lit pipe, .set 64 (str "|\r\n")] with
  | [id, kind, chan] =>
      let why := chanElectCannot b kind.str chan.str
      let ack := id.str ++ str "|" ++ (if why.isNone then str "1" else str "0") ++ str "|" ++
        why.getD []
      if ack.length < 160 then (sendFrame b cmdChanProbeAck ack).2 else b
  | _ => b

section

variable (P : Primitives)

/-- `id|kind|channel|requester|nick|hostmask`, with the widths of its last two. -/
def requestFmt (nickMax : Nat) (maskEnd : Str) : List Fmt :=
  [.set 63 pipe, .lit pipe, .set 15 pipe, .lit pipe, .set 64 pipe, .lit pipe, .set 63 pipe,
    .lit pipe, .set nickMax pipe, .lit pipe, .set 255 maskEnd]

/-- The `mode` job of `chan_elect_do`. -/
def chanDoMode (b : BotState) (id chan : Str) : BotState :=
  match find b chan with
  | none => chanDoneSend b id false (str "not in channel")
  | some mc =>
      match applyStored b mc with
      | (.error note, b) => chanDoneSend b id false note
      | (.ok _, b) => chanDoneSend b id true b.currentNick

/-- Under +bitch only an authorised member of the roster may be opped. -/
def bitchRefuses (b : BotState) (chan nick : Str) : Bool :=
  (find b chan).any fun bc =>
    bitch b bc && !((memberAuthorised b bc nick).1 && (memberAuthorised b bc nick).2)

/-- The `op` job of `chan_elect_do`. -/
def chanDoOp (b : BotState) (id chan nick : Str) : BotState :=
  if bitchRefuses b chan nick then chanDoneSend b id false (str "bitch")
  else chanDoneSend (ircPrintfNamed b (.op chan nick)) id true (str "MODE +o sent")

/-- The other jobs of `chan_elect_do`. -/
def chanDoAccess (b : BotState) (id kind chan nick mask : Str) : BotState :=
  match ChanReq.fromToken kind with
  | none => chanDoneSend b id false (str "unknown request")
  | some k =>
      if k = .unban ∧ mask = [] then chanDoneSend b id false (str "no hostmask to match")
      else
        chanDoneSend (accessService P b id k chan (some nick) (some mask) none) id true
          (match k with
          | .invite => str "INVITE sent"
          | .unban => str "ban list check started"
          | .key => str "key sent")

/-- `chan_elect_do`: the bot was picked. A `mode` job carries no requester and no
nick. -/
def chanElectDo (b : BotState) (payload : Str) : BotState :=
  let r := sscanf payload (requestFmt 31 (str "|\r\n"))
  let (id, kind, chan, nick, mask) := (field r 0, field r 1, field r 2, field r 4, field r 5)
  if r.length < 3 ∨ (r.length < 4 ∧ kind ≠ str "mode") then b
  else
    match chanElectCannot b kind chan with
    | some why => chanDoneSend b id false why
    | none =>
        if (kind = str "op" ∨ kind = str "invite") ∧ chanDoNickOk nick = false then
          chanDoneSend b id false (str "not a valid nick")
        else if kind = str "mode" then chanDoMode b id chan
        else if kind = str "op" then chanDoOp b id chan nick
        else chanDoAccess P b id kind chan nick mask

/-- The CHAN_ACTION arm. -/
def chanAction (b : BotState) (payload : Str) : BotState :=
  let r := sscanf payload (requestFmt 9 pipe)
  if r.length < 4 then b
  else
    match ChanReq.fromToken (field r 1) with
    | some k =>
        accessService P b (field r 0) k (field r 2) (some (field r 4)) (some (field r 5)) none
    | none => b

/-- The CHAN_REPLY arm, `id|kind|channel|status|data`: the data is everything
behind the fourth `|`. -/
def chanReply (b : BotState) (payload : Str) : BotState :=
  match sscanf payload [.set 63 pipe, .lit pipe, .set 15 pipe, .lit pipe, .set 64 pipe, .lit pipe,
      .set 15 pipe] with
  | [_, kind, chan, status] =>
      if ChanReq.fromToken kind.str = some .key ∧ status.str = str "ok" then
        accessAcceptKey b chan.str (((splitPipes 5 payload)[4]?).getD [])
      else b
  | _ => b

/-! ### The tree of bots -/

/-- A row of the tree, as far as the deal reads it. -/
def parseTreeRow (line : Str) : Option BotTreeRow :=
  match line with
  | k :: sep :: data =>
      if sep ≠ byte '|' then none
      else
        let f := (splitPipes 9 data).take 8
        let at' (i : Nat) : Str := (f[i]?).getD []
        let version (v : Str) : Str := if v = str "-" then [] else trunc v (treeVersionMax + 1)
        let kind := lower k
        if kind = byte 'h' ∧ 5 ≤ f.length then
          some ⟨kind, trunc (at' 2) 64, version (at' 5)⟩
        else if kind = byte 'b' ∧ 6 ≤ f.length then
          some ⟨kind, trunc (at' 2) 64, version (at' 3)⟩
        else if kind = byte 'd' ∧ 3 ≤ f.length then some ⟨kind, trunc (at' 1) 64, []⟩
        else none
  | _ => none

/-- `process_tree`. -/
def processTree (b : BotState) (payload : Str) : BotState :=
  let rows := (splitOn (byte '\n') payload).filterMap parseTreeRow
  { b with botTree := rows.take maxBotTreeRows }

/-! ### `handle_response` -/

/-- `handle_response`. -/
def handleResponse (rest : UInt8 → Str → BotState → BotState) (b : BotState) (cmd : UInt8)
    (payload : Str) : BotState :=
  if cmd = cmdPing then b
  else if cmd = cmdBotTree then processTree b payload
  else if cmd = cmdConfigData then
    if payload.isEmpty then b else (processConfigData P b payload).2
  else if cmd = cmdOpGrant then opGrant b payload
  else if cmd = cmdOpFailed then opFailed b
  else if cmd = cmdInviteRequest then inviteRequest b payload
  else if cmd = cmdChanProbe then chanProbe b payload
  else if cmd = cmdChanDo then if payload.isEmpty then b else chanElectDo P b payload
  else if cmd = cmdChanAction then chanAction P b payload
  else if cmd = cmdChanReply then chanReply b payload
  else if cmd = cmdBotMsg then if payload.isEmpty then b else (processPayload P b payload).2
  else if [cmdActivityReply, cmdUpgradePrepare, cmdUpgradeCommit, cmdUpgradeAbort].contains cmd then
    rest cmd payload b
  else b

end

/-! ### What granting the held ops does -/

/-- The held op `h` of channel `c` is granted now: in time, to a member without
ops. -/
def grantable (b : BotState) (c : Chan) (h : Str × Int) : Bool :=
  b.now - h.2 ≤ opGrantHoldSecs && (c.roster.find? fun r => eqIc r.nick h.1).any (!·.isOp)

/-- Granting the held ops empties the list and queues lines for nicks on it. -/
theorem grantHeldOps_eq (b : BotState) (ci : Nat) :
    ∃ out names, grantHeldOps b ci =
        { withChan b ci (fun c => { c with opGrantHeld := [] }) with
          ircOut := b.ircOut ++ out, named := b.named ++ names } ∧
      ∀ x ∈ names, ∃ c h, b.chans[ci]? = some c ∧ h ∈ c.opGrantHeld ∧ x = .op c.name h.1 ∧
        grantable b c h = true := by
  -- one held op: the channel it sees is `c` less its list
  have hstep (s : BotState) (h : Str × Int) (hs : s.chans = (withChan b ci fun c =>
        { c with opGrantHeld := [] }).chans) (hnow : s.now = b.now) :
      ∃ out names, grantHeld ci s h =
          { s with ircOut := s.ircOut ++ out, named := s.named ++ names } ∧
        ∀ x ∈ names, ∃ c, b.chans[ci]? = some c ∧ x = .op c.name h.1 ∧ grantable b c h = true := by
    unfold grantHeld
    split
    · exact ⟨[], [], by simp, by simp⟩
    · rename_i htime
      split
      · exact ⟨[], [], by simp, by simp⟩
      · rename_i c hc
        split
        · rename_i hmember
          obtain ⟨out, names, heq, hnames⟩ := ircPrintfNamed_eq s (.op c.name h.1)
          refine ⟨out, names, heq, fun x hx => ?_⟩
          rw [hs] at hc
          simp only [withChan, List.getElem?_modify_eq, Option.map_eq_map,
            Option.map_eq_some_iff] at hc
          obtain ⟨c', hc', rfl⟩ := hc
          refine ⟨c', hc', hnames x hx, ?_⟩
          rw [grantable, ← hnow, Bool.and_eq_true]
          exact ⟨by simpa using htime, hmember⟩
        · exact ⟨[], [], by simp, by simp⟩
  have hfold (held : List (Str × Int)) : ∀ s : BotState, s.chans = (withChan b ci fun c =>
        { c with opGrantHeld := [] }).chans → s.now = b.now →
      ∃ out names, held.foldl (grantHeld ci) s =
          { s with ircOut := s.ircOut ++ out, named := s.named ++ names } ∧
        ∀ x ∈ names, ∃ c h, b.chans[ci]? = some c ∧ h ∈ held ∧ x = .op c.name h.1 ∧
          grantable b c h = true := by
    induction held with
    | nil => exact fun s _ _ => ⟨[], [], by simp, by simp⟩
    | cons h held ih =>
        intro s hs hnow
        obtain ⟨out, names, hhead, hnames⟩ := hstep s h hs hnow
        obtain ⟨out', names', htail, hnames'⟩ := ih (grantHeld ci s h) (by rw [hhead]; exact hs)
          (by rw [hhead]; exact hnow)
        refine ⟨out ++ out', names ++ names', ?_, fun x hx => ?_⟩
        · rw [List.foldl_cons, htail, hhead]
          simp [List.append_assoc]
        · rcases List.mem_append.mp hx with hx | hx
          · obtain ⟨c, hc, hxc, hgrant⟩ := hnames x hx
            exact ⟨c, h, hc, List.mem_cons_self, hxc, hgrant⟩
          · obtain ⟨c, h', hc, hmem, hxc, hgrant⟩ := hnames' x hx
            exact ⟨c, h', hc, List.mem_cons_of_mem _ hmem, hxc, hgrant⟩
  obtain ⟨out, names, heq, hnames⟩ := hfold (b.chans.getD ci {}).opGrantHeld
    (withChan b ci fun c => { c with opGrantHeld := [] }) rfl rfl
  refine ⟨out, names, heq, fun x hx => ?_⟩
  obtain ⟨c, h, hc, hmem, hxc, hgrant⟩ := hnames x hx
  rw [List.getD_eq_getElem?_getD, hc] at hmem
  exact ⟨c, h, hc, hmem, hxc, hgrant⟩

/-! ### What the requests can change -/

theorem sameButService_chanDoneSend (b : BotState) (id : Str) (ok : Bool) (detail : Str) :
    SameButService b (chanDoneSend b id ok detail) := by
  unfold chanDoneSend
  generalize id ++ str "|" ++ (if ok then str "ok" else str "fail") ++ str "|" ++ detail = out
  dsimp only
  split
  · exact sameButService_of_link (sameButLink_sendFrame b _ _)
  · exact .refl b

theorem sameButService_chanDoMode (b : BotState) (id chan : Str) :
    SameButService b (chanDoMode b id chan) := by
  unfold chanDoMode
  split
  · exact sameButService_chanDoneSend b _ _ _
  · rename_i mc _
    obtain ⟨out, hsync⟩ := modeSync_eq b mc false false false
    have hstored : SameButService b (applyStored b mc).2 := by
      rw [applyStored, hsync]
      exact ⟨rfl⟩
    split
    · rename_i heq
      rw [heq] at hstored
      exact hstored.trans (sameButService_chanDoneSend _ _ _ _)
    · rename_i heq
      rw [heq] at hstored
      exact hstored.trans (sameButService_chanDoneSend _ _ _ _)

/-- A channel request the bot was picked for sends, and walks ban lists. -/
theorem sameButService_chanElectDo (P : Primitives) (b : BotState) (payload : Str) :
    SameButService b (chanElectDo P b payload) := by
  unfold chanElectDo
  dsimp only
  split
  · exact .refl b
  · split
    · exact sameButService_chanDoneSend b _ _ _
    · split
      · exact sameButService_chanDoneSend b _ _ _
      · split
        · exact sameButService_chanDoMode b _ _
        · split
          · unfold chanDoOp
            split
            · exact sameButService_chanDoneSend b _ _ _
            · exact (sameButService_ircPrintfNamed b _).trans (sameButService_chanDoneSend _ _ _ _)
          · unfold chanDoAccess
            split
            · exact sameButService_chanDoneSend b _ _ _
            · split
              · exact sameButService_chanDoneSend b _ _ _
              · exact (sameButService_accessService P b _ _ _ _ _ _).trans
                  (sameButService_chanDoneSend _ _ _ _)

theorem sameButService_chanAction (P : Primitives) (b : BotState) (payload : Str) :
    SameButService b (chanAction P b payload) := by
  unfold chanAction
  dsimp only
  split
  · exact .refl b
  · split
    · exact sameButService_accessService P b _ _ _ _ _ _
    · exact .refl b

theorem sameButService_inviteRequest (b : BotState) (payload : Str) :
    SameButService b (inviteRequest b payload) := by
  unfold inviteRequest
  split
  · split
    · split
      · exact sameButService_ircPrintfNamed b _
      · exact .refl b
    · exact .refl b
  · exact .refl b

/-! ### Whom the requests name -/

theorem namesOnly_grantHeldOps (b : BotState) (ci : Nat) :
    NamesOnly (fun x => ∃ c h, b.chans[ci]? = some c ∧ h ∈ c.opGrantHeld ∧ x = .op c.name h.1 ∧
      grantable b c h = true) b (grantHeldOps b ci) := by
  obtain ⟨out, names, heq, hnames⟩ := grantHeldOps_eq b ci
  exact ⟨names, by rw [heq], hnames⟩

/-- An OP_GRANT at once names the nick it carries. -/
theorem namesOnly_opGrant (b : BotState) (payload : Str) :
    NamesOnly (fun x => ∃ nick chan ci c, readOpGrant payload = some (nick, chan) ∧
      inChan b chan = some (ci, c) ∧ c.iAmOpped = true ∧ x = .op chan nick) b (opGrant b payload) := by
  unfold opGrant
  split
  · exact .refl b
  · rename_i nick chan hread
    split
    · exact .refl b
    · rename_i ci c hin
      split
      · rename_i hopped
        exact (namesOnly_ircPrintfNamed b _).mono fun x hx =>
          ⟨nick, chan, ci, c, hread, hin, hopped, hx⟩
      · exact .of_eq rfl

theorem named_chanDoneSend (b : BotState) (id : Str) (ok : Bool) (detail : Str) :
    (chanDoneSend b id ok detail).named = b.named := by
  unfold chanDoneSend
  generalize id ++ str "|" ++ (if ok then str "ok" else str "fail") ++ str "|" ++ detail = out
  dsimp only
  split
  · exact named_sendFrame b _ _
  · rfl

/-- The bot can do a request: it is one it knows, and in the channel as it takes. -/
theorem of_chanElectCannot_eq_none {b : BotState} {kind channel : Str}
    (h : chanElectCannot b kind channel = none) :
    ∃ ci c, inChan b channel = some (ci, c) ∧
      (kind = str "key" ∨ kind ∈ [str "op", str "invite", str "unban", str "mode"] ∧
        c.iAmOpped = true) := by
  unfold chanElectCannot at h
  split at h
  · simp at h
  · rename_i ci c hin
    refine ⟨ci, c, hin, ?_⟩
    split at h
    · exact .inl ‹_›
    · split at h
      · rename_i hkind
        refine .inr ⟨List.contains_iff_mem.mp hkind, ?_⟩
        split at h
        · simp at h
        · simpa using ‹¬ (!c.iAmOpped) = true›
      · simp at h

/-- Of the kinds a bot is picked for, only `invite` is served as one. -/
theorem kind_eq_invite {b : BotState} {kind channel : Str}
    (h : chanElectCannot b kind channel = none) (htok : ChanReq.fromToken kind = some .invite) :
    kind = str "invite" := by
  obtain ⟨ci, c, -, hkind⟩ := of_chanElectCannot_eq_none h
  rcases hkind with rfl | ⟨hmem, -⟩
  · revert htok
    decide
  · simp only [List.mem_cons, List.not_mem_nil, or_false] at hmem
    rcases hmem with rfl | rfl | rfl | rfl
    · revert htok
      decide
    · rfl
    · revert htok
      decide
    · revert htok
      decide

theorem named_chanDoMode (b : BotState) (id chan : Str) :
    (chanDoMode b id chan).named = b.named := by
  unfold chanDoMode
  split
  · exact named_chanDoneSend b _ _ _
  · rename_i mc _
    obtain ⟨out, hsync⟩ := modeSync_eq b mc false false false
    have hstored : (applyStored b mc).2.named = b.named := by rw [applyStored, hsync]
    split
    · rename_i heq
      rw [heq] at hstored
      exact (named_chanDoneSend _ _ _ _).trans hstored
    · rename_i heq
      rw [heq] at hstored
      exact (named_chanDoneSend _ _ _ _).trans hstored

/-- The fields of a CHAN_DO. -/
def chanDoFields (payload : Str) : List Conv := sscanf payload (requestFmt 31 (str "|\r\n"))

/-- **A CHAN_DO names the nick it carries**, after all the checks of its kind. -/
theorem namesOnly_chanElectDo (P : Primitives) (b : BotState) (payload : Str) :
    NamesOnly (fun x =>
      let kind := field (chanDoFields payload) 1
      let chan := field (chanDoFields payload) 2
      let nick := field (chanDoFields payload) 4
      chanDoNickOk nick = true ∧
        (kind = str "op" ∧ bitchRefuses b chan nick = false ∧ x = .op chan nick ∨
          kind = str "invite" ∧ x = .invite nick chan)) b
      (chanElectDo P b payload) := by
  have hdone (b' b'' : BotState) (id detail : Str) (ok : Bool) {Q : Named → Prop}
      (h : NamesOnly Q b'' b') : NamesOnly Q b'' (chanDoneSend b' id ok detail) :=
    h.of_named (named_chanDoneSend b' id ok detail)
  unfold chanElectDo chanDoFields
  dsimp only
  split
  · exact .refl b
  · split
    · exact hdone _ _ _ _ _ (.refl b)
    · rename_i hcannot
      split
      · exact hdone _ _ _ _ _ (.refl b)
      · rename_i hnick
        rw [not_and, Bool.not_eq_false] at hnick
        split
        · exact .of_eq (named_chanDoMode b _ _)
        · split
          · rename_i hop
            unfold chanDoOp
            split
            · exact hdone _ _ _ _ _ (.refl b)
            · rename_i hbitch
              refine hdone _ _ _ _ _ ((namesOnly_ircPrintfNamed b _).mono fun x hx => ?_)
              exact ⟨hnick (.inl hop), .inl ⟨hop, by simpa using hbitch, hx⟩⟩
          · unfold chanDoAccess
            split
            · exact hdone _ _ _ _ _ (.refl b)
            · rename_i k hk
              split
              · exact hdone _ _ _ _ _ (.refl b)
              · refine hdone _ _ _ _ _ ((namesOnly_accessService P b _ _ _ _ _ _).mono ?_)
                rintro x ⟨rfl, n, hn, -, hx⟩
                obtain rfl := Option.some.inj hn
                have hkind := kind_eq_invite hcannot hk
                exact ⟨hnick (.inr hkind), .inr ⟨hkind, hx⟩⟩

end IrcBot.HubRequests

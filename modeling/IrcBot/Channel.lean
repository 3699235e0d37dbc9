/-
# Channels, and getting people into them (`channel.rs`)

The walk of a ban list on behalf of another bot, the service of a channel-access
request, and the key another bot hands over. `SameButAccess` says what none of
this touches.
-/
import IrcBot.B2

namespace IrcBot.Channel

open Cstr Chancfg HubPush B2

/-! ### Unban jobs -/

/-- `unban_job_find`. -/
def unbanJobFind (b : BotState) (channel : Str) : Option Nat :=
  b.unbanJobs.findIdx? fun j => j.active && eqIc j.channel channel

/-- `unban_expire`. -/
def unbanExpire (b : BotState) : BotState :=
  { b with unbanJobs := b.unbanJobs.map fun j =>
      if j.active && unbanJobTtl < b.now - j.started then { j with active := false } else j }

/-- `unban_job_start`: whether a walk of the ban list was started. -/
def unbanJobStart (b : BotState) (channel hostmask : Str) : Bool × BotState :=
  let b := unbanExpire b
  if (unbanJobFind b channel).isSome then (false, b)
  else
    match b.unbanJobs.findIdx? fun j => !j.active with
    | none => (false, b)
    | some slot =>
        let job : UnbanJob :=
          { channel := trunc channel maxChan, hostmask := trunc hostmask maxMaskLen
            started := b.now, removed := 0, active := true }
        (true, ircPrintf { b with unbanJobs := b.unbanJobs.set slot job }
          (str "MODE " ++ channel ++ str " +b" ++ crlf))

/-! ### Access requests -/

section

variable (P : Primitives)

/-- The service of a key request: by ~B2 to `replyTo`, else through the hub. -/
def sendKey (b : BotState) (requestId channel key : Str) (replyTo : Option Str) : BotState :=
  if key.isEmpty then b
  else
    match replyTo.filter (!·.isEmpty) with
    | some nick => sendCommand P b nick (str "KEYIS " ++ channel ++ str " " ++ key)
    | none =>
        if requestId.isEmpty then b
        else (sendChanReply b requestId ChanReq.key.token channel (str "ok") key).2

/-- `access_service`. -/
def accessService (b : BotState) (requestId : Str) (kind : ChanReq) (channel : Str)
    (nick hostmask replyTo : Option Str) : BotState :=
  if channel.isEmpty then b
  else
    match (find b channel).bind fun ci => b.chans[ci]? with
    | none => b
    | some c =>
        if c.status ≠ .inside then b
        else
          match kind with
          | .unban =>
              match hostmask.filter (!·.isEmpty) with
              | none => b
              | some hm => if !c.iAmOpped then b else (unbanJobStart b channel hm).2
          | .invite =>
              match nick.filter (!·.isEmpty) with
              | none => b
              | some n => if !c.iAmOpped then b else ircPrintfNamed b (.invite n channel)
          | .key => sendKey P b requestId channel c.key replyTo

end

/-- `access_accept_key`: a key handed over by another bot, for a managed channel
the bot is locked out of and asked about recently. -/
def accessAcceptKey (b : BotState) (channel key : Str) : BotState :=
  if key.isEmpty || maxKey ≤ key.length then b
  else
    match find b channel with
    | none => b
    | some ci =>
        match b.chans[ci]? with
        | none => b
        | some c =>
            if !c.isManaged || c.status == .inside then b
            else
              let asked := c.lastAccessRequest.getD ChanReq.key.idx 0
              if asked = 0 ∨ chanReplyAcceptWindow < b.now - asked then b
              else if c.key = key then b
              else
                let b := withChan b ci fun c =>
                  { c with key := key, timestamp := lwwNextTs b.now c.timestamp }
                let b := writeConfig (pushChannel b ci)
                withChan b ci fun c => { c with lastJoinAttempt := 0 }

/-! ### What these can change -/

/-- Everything a sealed command or an access request can touch. -/
structure SameButAccess (b b' : BotState) : Prop where
  eq : b' = { b with
    link := b'.link, hubOut := b'.hubOut, chans := b'.chans, cfgBans := b'.cfgBans
    upgradeReport := b'.upgradeReport, upgradeInstalledId := b'.upgradeInstalledId
    upgradeMarker := b'.upgradeMarker, adminDeltaPending := b'.adminDeltaPending
    configDirty := b'.configDirty, ircOut := b'.ircOut, named := b'.named
    hubKeyRaw := b'.hubKeyRaw, unbanJobs := b'.unbanJobs, targetNick := b'.targetNick
    currentNickTs := b'.currentNickTs }

theorem SameButAccess.refl (b : BotState) : SameButAccess b b := ⟨rfl⟩

theorem SameButAccess.trans {b₁ b₂ b₃ : BotState} (h : SameButAccess b₁ b₂)
    (h' : SameButAccess b₂ b₃) : SameButAccess b₁ b₃ := by
  constructor
  rw [h'.eq, h.eq]

theorem sameButAccess_of_push {b b' : BotState} (h : SameButPush b b') : SameButAccess b b' := by
  constructor
  rw [h.eq]

theorem sameButAccess_withChan (b : BotState) (ci : Nat) (f : Chan → Chan) :
    SameButAccess b (withChan b ci f) := ⟨rfl⟩

/-- The service of a request sends, and starts walks of ban lists. -/
structure SameButService (b b' : BotState) : Prop where
  eq : b' = { b with
    link := b'.link, hubOut := b'.hubOut, ircOut := b'.ircOut, named := b'.named
    hubKeyRaw := b'.hubKeyRaw, unbanJobs := b'.unbanJobs }

theorem SameButService.refl (b : BotState) : SameButService b b := ⟨rfl⟩

theorem SameButService.trans {b₁ b₂ b₃ : BotState} (h : SameButService b₁ b₂)
    (h' : SameButService b₂ b₃) : SameButService b₁ b₃ := by
  constructor
  rw [h'.eq, h.eq]

theorem SameButService.access {b b' : BotState} (h : SameButService b b') : SameButAccess b b' := by
  constructor
  rw [h.eq]

theorem sameButService_of_link {b b' : BotState} (h : SameButLink b b') : SameButService b b' := by
  constructor
  rw [h.eq]

theorem sameButService_ircPrintf (b : BotState) (line : Str) :
    SameButService b (ircPrintf b line) := by
  obtain ⟨out, h, -⟩ := ircPrintf_eq b line
  rw [h]
  exact ⟨rfl⟩

theorem sameButService_ircPrintfNamed (b : BotState) (x : Named) :
    SameButService b (ircPrintfNamed b x) := by
  obtain ⟨out, names, h, -⟩ := ircPrintfNamed_eq b x
  rw [h]
  exact ⟨rfl⟩

theorem sameButAccess_ircPrintfNamed (b : BotState) (x : Named) :
    SameButAccess b (ircPrintfNamed b x) := (sameButService_ircPrintfNamed b x).access

theorem sameButService_unbanJobStart (b : BotState) (channel hostmask : Str) :
    SameButService b (unbanJobStart b channel hostmask).2 := by
  unfold unbanJobStart
  dsimp only
  split
  · exact ⟨rfl⟩
  · split
    · exact ⟨rfl⟩
    · exact SameButService.trans ⟨rfl⟩ (sameButService_ircPrintf _ _)

section

variable (P : Primitives)

theorem sameButService_sendCommand (b : BotState) (targetNick command : Str) :
    SameButService b (sendCommand P b targetNick command) := by
  unfold sendCommand b2Send
  split
  · exact .refl b
  · rename_i tb _
    obtain ⟨raw, hraw⟩ := sealTo_eq P b tb command
    have hseal : SameButService b (sealTo P b tb command).2 := by
      rw [hraw]
      exact ⟨rfl⟩
    split
    · rename_i h
      rw [h] at hseal
      exact hseal
    · rename_i line b' h
      rw [h] at hseal
      have hrelay := sameButService_of_link (sameButLink_relayBotCommand b' tb.uuid line)
      split
      · rename_i hsent
        rw [hsent] at hrelay
        exact hseal.trans hrelay
      · rename_i hsent
        rw [hsent] at hrelay
        exact (hseal.trans hrelay).trans (sameButService_ircPrintf _ _)

theorem sameButService_accessService (b : BotState) (requestId : Str) (kind : ChanReq)
    (channel : Str) (nick hostmask replyTo : Option Str) :
    SameButService b (accessService P b requestId kind channel nick hostmask replyTo) := by
  unfold accessService
  split
  · exact .refl b
  · split
    · exact .refl b
    · split
      · exact .refl b
      · split
        · split
          · exact .refl b
          · split
            · exact .refl b
            · exact sameButService_unbanJobStart b _ _
        · split
          · exact .refl b
          · split
            · exact .refl b
            · exact sameButService_ircPrintfNamed b _
        · unfold sendKey
          split
          · exact .refl b
          · split
            · exact sameButService_sendCommand P b _ _
            · split
              · exact .refl b
              · exact sameButService_of_link (sameButLink_sendChanReply b _ _ _ _ _)

theorem sameButAccess_accessService (b : BotState) (requestId : Str) (kind : ChanReq)
    (channel : Str) (nick hostmask replyTo : Option Str) :
    SameButAccess b (accessService P b requestId kind channel nick hostmask replyTo) :=
  (sameButService_accessService P b requestId kind channel nick hostmask replyTo).access

end

/-! ### Whom these name -/

section

variable (P : Primitives)

theorem named_of_push {b b' : BotState} (h : SameButPush b b') : b'.named = b.named := by
  rw [h.eq]

theorem named_unbanJobStart (b : BotState) (channel hostmask : Str) :
    (unbanJobStart b channel hostmask).2.named = b.named := by
  unfold unbanJobStart
  dsimp only
  split
  · rfl
  · split
    · rfl
    · exact named_ircPrintf _ _

theorem named_sendCommand (b : BotState) (targetNick command : Str) :
    (sendCommand P b targetNick command).named = b.named := by
  unfold sendCommand b2Send
  split
  · rfl
  · rename_i tb _
    obtain ⟨raw, hseal⟩ := sealTo_eq P b tb command
    split
    · rename_i b' h
      rw [h] at hseal
      dsimp only at hseal ⊢
      rw [hseal]
    · rename_i line b' h
      rw [h] at hseal
      dsimp only at hseal
      have hb' : b'.named = b.named := by rw [hseal]
      have hrelay := named_of_push (sameButPush_relayBotCommand b' tb.uuid line)
      split
      · rename_i hsent
        rw [hsent] at hrelay
        exact hrelay.trans hb'
      · rename_i hsent
        rw [hsent] at hrelay
        exact ((named_ircPrintf _ _).trans hrelay).trans hb'

/-- **A channel-access request names the person it is for**, in an invitation. -/
theorem namesOnly_accessService (b : BotState) (requestId : Str) (kind : ChanReq)
    (channel : Str) (nick hostmask replyTo : Option Str) :
    NamesOnly (fun x => kind = .invite ∧ ∃ n, nick = some n ∧ n ≠ [] ∧ x = .invite n channel) b
      (accessService P b requestId kind channel nick hostmask replyTo) := by
  unfold accessService
  split
  · exact .refl b
  · split
    · exact .refl b
    · split
      · exact .refl b
      · split
        · split
          · exact .refl b
          · split
            · exact .refl b
            · exact .of_eq (named_unbanJobStart b _ _)
        · split
          · exact .refl b
          · rename_i n hn
            split
            · exact .refl b
            · refine (namesOnly_ircPrintfNamed b _).mono fun x hx => ⟨rfl, n, ?_⟩
              rw [Option.filter_eq_some_iff] at hn
              exact ⟨hn.1, by simpa using hn.2, hx⟩
        · unfold sendKey
          split
          · exact .refl b
          · split
            · exact .of_eq (named_sendCommand P b _ _)
            · split
              · exact .refl b
              · exact .of_eq (named_of_push (sameButPush_sendChanReply b _ _ _ _ _))

end

theorem named_accessAcceptKey (b : BotState) (channel key : Str) :
    (accessAcceptKey b channel key).named = b.named := by
  unfold accessAcceptKey
  split
  · rfl
  · split
    · rfl
    · split
      · rfl
      · split
        · rfl
        · dsimp only
          split
          · rfl
          · split
            · rfl
            · have hpush := fun b ci => named_of_push (sameButPush_pushChannel b ci)
              have hwrite := fun b => named_of_push (sameButPush_writeConfig b)
              exact (hwrite _).trans (hpush _ _)

/-! ### The key of another bot -/

theorem sameButAccess_accessAcceptKey (b : BotState) (channel key : Str) :
    SameButAccess b (accessAcceptKey b channel key) := by
  unfold accessAcceptKey
  split
  · exact .refl b
  · split
    · exact .refl b
    · split
      · exact .refl b
      · split
        · exact .refl b
        · dsimp only
          split
          · exact .refl b
          · split
            · exact .refl b
            · have hpush := fun b ci => sameButAccess_of_push (sameButPush_pushChannel b ci)
              have hwrite := fun b => sameButAccess_of_push (sameButPush_writeConfig b)
              have hchan := sameButAccess_withChan
              exact (((hchan b _ _).trans (hpush _ _)).trans (hwrite _)).trans (hchan _ _ _)

end IrcBot.Channel

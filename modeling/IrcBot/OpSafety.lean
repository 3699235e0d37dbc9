/-
# Who is opped on request (`hub_client.rs`, `bot_comms.rs`, `chanenf.rs`, `commands.rs`)

Ops are asked for by five routes: the hub's OP_GRANT, at once or held until the
bot's own +o, its CHAN_DO, another bot's OPME, the reop of enforcement and the op
command. Under +bitch only the CHAN_DO and the reop ask whether the member is
authorised.

* `ops_vouched` — in a run in which the other routes ask for nobody who is not,
  no line ops an unauthorised member of a channel with +bitch.
* `not_ops_vouched` — an OP_GRANT ops a stranger.
* `Run.handleModeChange` — a MODE line is such a run.
-/
import IrcBot.Enforce
import IrcBot.IrcParser

namespace IrcBot.OpSafety

open Cstr Chancfg Chanenf Chanlive Enforce HubRequests B2 BotComms IrcParser

variable (P : Primitives)

/-! ### The op command (`commands.rs`) -/

/-- `op` of an admin. -/
def adminOp (b : BotState) (nick : Str) (a1 : Option Str) : BotState :=
  match a1 with
  | some ch => ircPrintfNamed b (.op ch nick)
  | none => ircPrintf b (str "PRIVMSG " ++ nick ++ str " :Syntax: op <#channel>" ++ crlf)

/-- `op` of an oper: the channel is the first word of the argument. -/
def operOp (b : BotState) (nick : Str) (a1 : Option Str) : BotState :=
  match a1.bind fun x => (tokNext (str " ") x).1 with
  | some ch => ircPrintfNamed b (.op ch nick)
  | none => b

/-! ### Requests and runs -/

/-- Under +bitch, the member called `nick` is authorised, if there is one. -/
def vouched (b : BotState) (channel nick : Str) : Bool :=
  ((find b channel).bind fun ci =>
    (b.chans[ci]?.filter fun _ => bitch b ci).bind fun c =>
      c.roster.find? fun r => eqIc r.nick nick).all (entryVerdict b)

/-- The ways the bot is asked to op somebody. -/
inductive Request where
  | opGrant (payload : Str)
  /-- The bot's own +o in the channel. -/
  | ownOp (channel : Str)
  | chanDo (payload : Str)
  | b2 (ti : Nat) (b64 : Str) (senderNick : Option Str)
  | reop (channel nick why : Str)
  | adminOp (nick : Str) (a1 : Option Str)
  | operOp (nick : Str) (a1 : Option Str)

/-- What the bot does with a request. -/
def Request.run (b : BotState) : Request → BotState
  | .opGrant payload => HubRequests.opGrant b payload
  | .ownOp channel => (find b channel).elim b (grantHeldOps b)
  | .chanDo payload => chanElectDo P b payload
  | .b2 ti b64 senderNick => (openAndDispatch P b ti b64 senderNick).2
  | .reop channel nick why => (find b channel).elim b fun ci => actReop b ci nick why
  | .adminOp nick a1 => OpSafety.adminOp b nick a1
  | .operOp nick a1 => OpSafety.operOp b nick a1

/-- A line that gives somebody ops, and the state it was queued in. -/
structure Asked where
  state : BotState
  channel : Str
  nick : Str

/-- The ops asked for from `b` to `b'`. -/
def asked (b b' : BotState) : List Asked :=
  (newNamed b b').filterMap fun
    | .op channel nick => some ⟨b, channel, nick⟩
    | .invite _ _ => none

/-- Runs of requests, each of them `ok`, and anything else the bot does, with the
ops asked for so far, newest first. -/
inductive Run (ok : BotState → Request → Prop) : BotState → List Asked → Prop
  | start (b : BotState) : Run ok b []
  | request {b tr} (h : Run ok b tr) (r : Request) (hok : ok b r) :
      Run ok (r.run P b) (asked b (r.run P b) ++ tr)
  /-- Everything else: it names nobody in a MODE +o. -/
  | other {b b' tr} (h : Run ok b tr) (hnone : asked b b' = []) : Run ok b' tr

/-- The channel an OPME asks for. -/
def opmeOf (cmd : Str) : Option Str :=
  match tokNext (str " ") cmd with
  | (some verb, rest) => if eqIc verb (str "OPME") then (tokNext (str " ") rest).1 else none
  | (none, _) => none

/-- The channel a ~B2 frame asks ops for, if it opens to an OPME. -/
def opmeIn (b : BotState) (ti : Nat) (b64 : Str) : Option Str :=
  b.trustedBots[ti]?.bind fun sender => (openB2 P b sender b64).1.bind fun env => opmeOf env.2.2

/-- Where no check is made, nobody is asked for who is not vouched for; the CHAN_DO
does check, and the verdict it finds is no newer than the one in the roster. -/
def Request.ok (b : BotState) : Request → Prop
  | .opGrant payload => ∀ nick chan ci c, readOpGrant payload = some (nick, chan) →
      inChan b chan = some (ci, c) → c.iAmOpped = true → vouched b chan nick = true
  | .ownOp channel => ∀ ci c h, find b channel = some ci → b.chans[ci]? = some c →
      h ∈ c.opGrantHeld → grantable b c h = true → vouched b channel h.1 = true
  | .chanDo payload => ∀ ci c e, find b (field (chanDoFields payload) 2) = some ci →
      b.chans[ci]? = some c →
        (c.roster.find? fun r => eqIc r.nick (field (chanDoFields payload) 4)) = some e →
          Auth.isAuthorised b e.hostmask = true → entryVerdict b e = true
  | .b2 ti b64 senderNick => ∀ chan nick, opmeIn P b ti b64 = some chan → senderNick = some nick →
      vouched b chan nick = true
  | .reop _ _ _ => True
  | .adminOp nick a1 => ∀ chan, a1 = some chan → vouched b chan nick = true
  | .operOp nick a1 => ∀ chan, (a1.bind fun x => (tokNext (str " ") x).1) = some chan →
      vouched b chan nick = true

/-! ### Names up to case -/

theorem eqIc_congr {a a' : Str} (h : eqIc a a' = true) (x : Str) : eqIc x a = eqIc x a' := by
  rw [eqIc_iff] at h
  simp [eqIc, h]

theorem find_congr {b : BotState} {name name' : Str} (h : eqIc name name' = true) :
    find b name = find b name' := by
  unfold find
  congr 1
  funext c
  exact eqIc_congr h c.name

/-- The channel found has the name that was looked for. -/
theorem eqIc_of_find {b : BotState} {name : Str} {ci : Nat} {c : Chan}
    (hfind : find b name = some ci) (hc : b.chans[ci]? = some c) : eqIc c.name name = true := by
  obtain ⟨hlt, hname, -⟩ := List.findIdx?_eq_some_iff_getElem.mp hfind
  obtain ⟨_, rfl⟩ := List.getElem?_eq_some_iff.mp hc
  exact hname

theorem vouched_congr {b : BotState} {channel channel' : Str} (h : eqIc channel channel' = true)
    (nick : Str) : vouched b channel nick = vouched b channel' nick := by
  unfold vouched
  rw [find_congr h]

theorem vouched_iff {b : BotState} {channel nick : Str} :
    vouched b channel nick = true ↔ ∀ ci c e, find b channel = some ci → b.chans[ci]? = some c →
      bitch b ci = true → (c.roster.find? fun r => eqIc r.nick nick) = some e →
        entryVerdict b e = true := by
  unfold vouched
  constructor
  · intro h ci c e hfind hc hbitch he
    simpa [hfind, hc, hbitch, he, Option.filter_some] using h
  · intro h
    rw [Option.all_eq_true]
    intro e he
    obtain ⟨ci, hfind, he⟩ := Option.bind_eq_some_iff.mp he
    obtain ⟨c, hc, he⟩ := Option.bind_eq_some_iff.mp he
    rw [Option.filter_eq_some_iff] at hc
    exact h ci c e hfind hc.1 hc.2 he

/-! ### What each route asks for -/

/-- The ops asked for are vouched for. -/
abbrev AsksVouched (b b' : BotState) : Prop :=
  NamesOnly (fun x => ∀ channel nick, x = .op channel nick → vouched b channel nick = true) b b'

theorem asksVouched_grantHeldOps {b : BotState} {channel : Str} {ci : Nat}
    (hfind : find b channel = some ci) (hok : (Request.ownOp channel).ok P b) :
    AsksVouched b (grantHeldOps b ci) := by
  refine (namesOnly_grantHeldOps b ci).mono ?_
  rintro _ ⟨c, h, hc, hheld, rfl, hgrant⟩ chan nick heq
  simp only [Named.op.injEq] at heq
  obtain ⟨rfl, rfl⟩ := heq
  rw [vouched_congr (eqIc_of_find hfind hc)]
  exact hok ci c h hfind hc hheld hgrant

theorem asksVouched_opGrant {b : BotState} {payload : Str}
    (hok : (Request.opGrant payload).ok P b) : AsksVouched b (opGrant b payload) := by
  refine (namesOnly_opGrant b payload).mono ?_
  rintro _ ⟨nick, chan, ci, c, hread, hin, hopped, rfl⟩ chan' nick' heq
  simp only [Named.op.injEq] at heq
  obtain ⟨rfl, rfl⟩ := heq
  exact hok nick chan ci c hread hin hopped

/-- The CHAN_DO refuses whom it does not find authorised. -/
theorem asksVouched_chanElectDo {b : BotState} {payload : Str}
    (hok : (Request.chanDo payload).ok P b) : AsksVouched b (chanElectDo P b payload) := by
  refine (namesOnly_chanElectDo P b payload).mono ?_
  rintro x ⟨-, hx⟩ channel nick rfl
  rcases hx with ⟨-, hrefuses, hop⟩ | ⟨-, hinvite⟩
  · simp only [Named.op.injEq] at hop
    obtain ⟨rfl, rfl⟩ := hop
    refine vouched_iff.mpr fun ci c e hfind hc hbitch he => hok ci c e hfind hc he ?_
    simp only [bitchRefuses, hfind, Option.any_some, hbitch, Bool.true_and] at hrefuses
    simpa [memberAuthorised, hc, he] using hrefuses
  · simp at hinvite

theorem asksVouched_actReop {b : BotState} {channel : Str} {ci : Nat}
    (hfind : find b channel = some ci) (nick why : Str) :
    AsksVouched b (actReop b ci nick why) := by
  refine (namesOnly_actReop b ci nick why).mono ?_
  rintro x ⟨c, i, e, hc, hmember, rfl, hverdict⟩ chan nick' heq
  simp only [Named.op.injEq] at heq
  obtain ⟨rfl, rfl⟩ := heq
  obtain ⟨i', hi, he⟩ := Option.bind_eq_some_iff.mp hmember
  simp only [Option.map_eq_some_iff, Prod.mk.injEq] at he
  obtain ⟨e', he, rfl, rfl⟩ := he
  obtain ⟨hlt, hnick, hfirst⟩ := List.findIdx?_eq_some_iff_getElem.mp hi
  obtain ⟨_, rfl⟩ := List.getElem?_eq_some_iff.mp he
  -- the member found by `nick` is the first one of its own nick too
  have hsame : (c.roster.find? fun r => eqIc r.nick c.roster[i'].nick) = some c.roster[i'] := by
    have hpred : (fun r : RosterEntry => eqIc r.nick c.roster[i'].nick) =
      fun r => eqIc r.nick nick := by
      funext r
      exact eqIc_congr hnick r.nick
    rw [hpred, List.find?_eq_some_iff_getElem]
    exact ⟨hnick, i', hlt, rfl, fun j hj => by
      rw [Bool.not_eq_true', ← Bool.not_eq_true]
      exact hfirst j hj⟩
  refine vouched_iff.mpr fun ci' c' e' hfind' hc' _ he' => ?_
  rw [find_congr (eqIc_of_find hfind hc), hfind] at hfind'
  obtain rfl := Option.some.inj hfind'
  obtain rfl : c = c' := Option.some.inj (hc.symm.trans hc')
  rw [hsame] at he'
  obtain rfl := Option.some.inj he'
  exact hverdict

/-- Of the commands of bots, only OPME asks for ops. -/
theorem namesOnly_dispatch (b : BotState) (sender : TrustedBot) (cmd : Str)
    (senderNick : Option Str) :
    NamesOnly (fun x => ∀ channel nick, x = .op channel nick →
      opmeOf cmd = some channel ∧ senderNick = some nick) b (dispatch P b sender cmd senderNick) := by
  have hservice (id : Str) (kind : ChanReq) (chan : Str) (nick mask reply : Option Str) :
      NamesOnly (fun x => ∀ channel nick, x = .op channel nick →
        opmeOf cmd = some channel ∧ senderNick = some nick) b
        (Channel.accessService P b id kind chan nick mask reply) := by
    refine (Channel.namesOnly_accessService P b id kind chan nick mask reply).mono ?_
    rintro x ⟨-, n, -, -, rfl⟩ channel nick heq
    simp at heq
  unfold dispatch
  split
  · exact .refl b
  · rename_i verb rest hverb
    split
    · exact .refl b
    · rename_i arg1 rest' harg
      split
      · rename_i hopme
        unfold dispatchOpme
        split
        · rename_i n
          refine (namesOnly_ircPrintfNamed b _).mono ?_
          rintro x rfl channel nick heq
          simp only [Named.op.injEq] at heq
          obtain ⟨rfl, rfl⟩ := heq
          refine ⟨?_, rfl⟩
          unfold opmeOf
          rw [hverb]
          dsimp only
          rw [if_pos hopme, harg]
        · exact .refl b
      · split
        · unfold dispatchSetnick
          split
          · have hdelta := fun b v ts =>
              Channel.named_of_push (HubPush.sameButPush_pushDelta b (str "n") v ts)
            have hwrite := fun b => Channel.named_of_push (HubPush.sameButPush_writeConfig b)
            exact .of_eq ((hwrite _).trans (hdelta _ _ _))
          · exact .refl b
        · split
          · split
            · unfold dispatchInvite
              split
              · split
                · refine (namesOnly_ircPrintfNamed b _).mono ?_
                  rintro x rfl channel nick heq
                  simp at heq
                · exact .refl b
              · exact .refl b
            · exact .refl b
          · split
            · exact hservice _ _ _ _ _ _
            · split
              · split
                · exact hservice _ _ _ _ _ _
                · exact .refl b
              · split
                · split
                  · exact .of_eq (Channel.named_accessAcceptKey b _ _)
                  · exact .refl b
                · exact .refl b

theorem asksVouched_b2 {b : BotState} {ti : Nat} {b64 : Str} {senderNick : Option Str}
    (hok : (Request.b2 ti b64 senderNick).ok P b) :
    AsksVouched b (openAndDispatch P b ti b64 senderNick).2 := by
  unfold openAndDispatch
  split
  · exact .refl b
  · rename_i sender hsender
    split
    · rename_i b' hopen
      obtain ⟨raw, ring, hstate⟩ := openB2_eq P b sender b64
      rw [hopen] at hstate
      dsimp only at hstate
      exact .of_eq (by rw [hstate])
    · rename_i ts nonce cmd b' hopen
      obtain ⟨raw, ring, hstate⟩ := openB2_eq P b sender b64
      rw [hopen] at hstate
      dsimp only at hstate
      have hnoted : b'.named = b.named := by rw [hstate]
      refine (NamesOnly.of_eq hnoted).trans ((namesOnly_dispatch P b' sender cmd senderNick).mono ?_)
      intro x hx channel nick heq
      obtain ⟨hopme, hnick⟩ := hx channel nick heq
      refine hok channel nick ?_ hnick
      simp [opmeIn, hsender, hopen, hopme]

theorem asksVouched_op {b : BotState} {channel nick : Str} (hok : vouched b channel nick = true) :
    AsksVouched b (ircPrintfNamed b (.op channel nick)) := by
  refine (namesOnly_ircPrintfNamed b _).mono ?_
  rintro x rfl channel' nick' heq
  simp only [Named.op.injEq] at heq
  obtain ⟨rfl, rfl⟩ := heq
  exact hok

/-- **One request** asks for nobody who is not vouched for. -/
theorem asksVouched_run {b : BotState} {r : Request} (hok : r.ok P b) :
    AsksVouched b (r.run P b) := by
  cases r with
  | opGrant payload => exact asksVouched_opGrant P hok
  | ownOp channel =>
      show AsksVouched b ((find b channel).elim b (grantHeldOps b))
      cases hfind : find b channel with
      | none => exact .refl b
      | some ci => exact asksVouched_grantHeldOps P hfind hok
  | chanDo payload => exact asksVouched_chanElectDo P hok
  | b2 ti b64 senderNick => exact asksVouched_b2 P hok
  | reop channel nick why =>
      show AsksVouched b ((find b channel).elim b fun ci => actReop b ci nick why)
      cases hfind : find b channel with
      | none => exact .refl b
      | some ci => exact asksVouched_actReop hfind nick why
  | adminOp nick a1 =>
      unfold Request.run OpSafety.adminOp
      cases a1 with
      | none => exact .of_eq (named_ircPrintf b _)
      | some ch => exact asksVouched_op (hok ch rfl)
  | operOp nick a1 =>
      unfold Request.run OpSafety.operOp
      dsimp only
      split
      · rename_i ch hch
        exact asksVouched_op (hok ch hch)
      · exact .refl b

/-! ### Runs -/

theorem vouched_of_mem_asked {b b' : BotState} (h : AsksVouched b b') :
    ∀ a ∈ asked b b', vouched a.state a.channel a.nick = true := by
  intro a ha
  obtain ⟨x, hx, heq⟩ := List.mem_filterMap.mp ha
  cases x with
  | op channel nick =>
      obtain rfl := Option.some.inj heq
      exact h.newNamed _ hx channel nick rfl
  | invite nick channel => simp at heq

/-- **No unauthorised member of a channel with +bitch is opped on request**, in a
run in which the routes that make no check ask for nobody like that. -/
theorem ops_vouched {b : BotState} {tr : List Asked} (h : Run P (fun b r => r.ok P b) b tr) :
    ∀ a ∈ tr, vouched a.state a.channel a.nick = true := by
  induction h with
  | start b => simp
  | request _ r hok ih =>
      intro a ha
      rcases List.mem_append.mp ha with ha | ha
      · exact vouched_of_mem_asked (asksVouched_run P hok) a ha
      · exact ih a ha
  | other _ _ ih => exact ih

/-! ### A channel with +bitch -/

/-- An opped bot in a channel with +bitch; `u` is a user, `x` a stranger. -/
def strict : BotState :=
  { connected := true, currentNick := str "me"
    userRecords := [{ uuid := str "1", name := str "u", isActive := true }]
    maskRecords := [{ uuid := str "1", mask := str "u!u@h", isActive := true }]
    chans :=
      [{ name := str "#c", status := .inside, iAmOpped := true, cfgActive := true, cfgTs := 1
         cfgSet := parseSettings (str "bitch=1") false
         roster := [{ nick := str "u", hostmask := str "u!u@h" },
           { nick := str "x", hostmask := str "x!x@h" }] }] }

/-- Whom a hub's OP_GRANT makes the bot op. -/
def granted (payload : Str) : List (Str × Str) :=
  (asked strict (opGrant strict payload)).map fun a => (a.channel, a.nick)

/-- An OP_GRANT for the user is carried out. -/
theorem ops_vouched_user :
    granted (str "u!u@h|#c") = [(str "#c", str "u")] ∧
      ∀ a ∈ asked strict (opGrant strict (str "u!u@h|#c")) ++ [],
        vouched a.state a.channel a.nick = true := by
  refine ⟨by decide, ?_⟩
  have hread : readOpGrant (str "u!u@h|#c") = some (str "u", str "#c") := by decide
  have hok : (Request.opGrant (str "u!u@h|#c")).ok .clear strict := by
    intro nick chan ci c hread' _ _
    rw [hread] at hread'
    simp only [Option.some.injEq, Prod.mk.injEq] at hread'
    obtain ⟨rfl, rfl⟩ := hread'
    decide
  exact ops_vouched .clear ((Run.start strict).request (.opGrant (str "u!u@h|#c")) hok)

/-- So is one for the stranger. -/
theorem not_ops_vouched :
    ¬ ∀ (P : Primitives) (b : BotState) (tr : List Asked), Run P (fun _ _ => True) b tr →
      ∀ a ∈ tr, vouched a.state a.channel a.nick = true := by
  intro hall
  have hstart : Run .clear (fun _ _ => True) strict [] := .start strict
  have hrun := hstart.request (.opGrant (str "x!x@h|#c")) trivial
  have hasked : granted (str "x!x@h|#c") = [(str "#c", str "x")] := by decide
  obtain ⟨a, ha, hfields⟩ := List.mem_map.mp (hasked ▸ List.mem_singleton_self _)
  have hvouched := hall .clear _ _ hrun a (List.mem_append_left _ ha)
  obtain ⟨x, -, hx⟩ := List.mem_filterMap.mp ha
  have hstate : a.state = strict := by
    cases x with
    | op channel nick =>
        obtain rfl := Option.some.inj hx
        rfl
    | invite nick channel => simp at hx
  simp only [Prod.mk.injEq] at hfields
  rw [hstate, hfields.1, hfields.2] at hvouched
  revert hvouched
  decide

/-! ### MODE lines are runs -/

theorem asked_eq_nil {b b' : BotState} (h : b'.named = b.named) : asked b b' = [] := by
  simp [asked, newNamed, h]

/-- The names of the channels, in order; `find` depends on nothing else. -/
def chanNames (b : BotState) : List Str := b.chans.map Chan.name

theorem find_of_names {b b' : BotState} (h : chanNames b' = chanNames b) (name : Str) :
    find b' name = find b name := by
  have hfind (b : BotState) : find b name = (chanNames b).findIdx? fun n => eqIc n name := by
    rw [chanNames, List.findIdx?_map]
    rfl
  rw [hfind, hfind, h]

@[simp] theorem chanNames_withChan (b : BotState) (ci : Nat) {f : Chan → Chan}
    (h : ∀ c, (f c).name = c.name) : chanNames (withChan b ci f) = chanNames b := by
  rw [chanNames, withChan, map_modify (g := id) h, List.modify_id]
  rfl

theorem name_withEntry (c : Chan) (nick : Str) (f : RosterEntry → RosterEntry) :
    (withEntry c nick f).name = c.name := by
  unfold withEntry
  split <;> rfl

@[simp] theorem chanNames_ircPrintf (b : BotState) (line : Str) :
    chanNames (ircPrintf b line) = chanNames b := by
  obtain ⟨out, heq, -⟩ := ircPrintf_eq b line
  rw [heq]
  rfl

@[simp] theorem chanNames_grantHeldOps (b : BotState) (ci : Nat) :
    chanNames (grantHeldOps b ci) = chanNames b := by
  obtain ⟨out, names, heq, -⟩ := grantHeldOps_eq b ci
  rw [heq]
  exact chanNames_withChan b ci (f := fun c => { c with opGrantHeld := [] }) fun c => rfl

theorem chanNames_ownOp (b : BotState) (ci : Nat) (adding : Bool) :
    chanNames (ownOp b ci adding) = chanNames b := by
  unfold ownOp
  dsimp only
  split
  · simp [name_withEntry]
  · split <;> simp [name_withEntry]

theorem name_keyChange (managed adding : Bool) (arg : Option Str) (c : Chan) :
    (keyChange managed adding arg c).name = c.name := by
  unfold keyChange
  split
  · rfl
  · split
    · split <;> rfl
    · rfl

section

variable {ok : BotState → Request → Prop} {tr : List Asked} {channel : Str} {ci : Nat}

/-- The state in which the bot's own +o has the held ops granted. -/
def opReady (b : BotState) (ci : Nat) : BotState :=
  withChan (withChan b ci fun c =>
    withEntry { c with iAmOpped := true } b.currentNick fun r => { r with isOp := true }) ci fun c =>
      { c with
        enfDirty := true, enfOpsCheck := true, opRequestPending := false, opRequestRetryCount := 0 }

/-- A letter of a MODE line that gives the bot itself ops. -/
def opsBot (b : BotState) (x : (Bool × UInt8) × Option Str) : Bool :=
  x.1.1 && x.1.2 == byte 'o' && x.2.any (eqIc · b.currentNick)

/-- The states in which these letters have the held ops granted. -/
def ownOps (ci : Nat) (managed : Bool) :
    BotState → List ((Bool × UInt8) × Option Str) → List BotState
  | _, [] => []
  | b, x :: xs =>
      (if opsBot b x then [opReady b ci] else []) ++
        ownOps ci managed (IrcParser.handleModeStep ci managed b x) xs

/-- The states in which a MODE line has the held ops granted. -/
def lineOwnOps (b : BotState) (channel modes args : Str) : List BotState :=
  (find b channel).elim [] fun ci =>
    let b := if args.length < 1024 then apply b ci modes args false else b
    ownOps ci (keyManaged b ci) b
      (Lib.ArgWalk.assign loopTakes (signed true modes) (tokens args))

/-- The bot's own +o or -o is a run. -/
theorem Run.ownOp {b : BotState} (h : Run P ok b tr) {adding : Bool}
    (hok : adding = true → ok (opReady b ci) (.ownOp channel)) (hfind : find b channel = some ci) :
    ∃ tr', Run P ok (IrcParser.ownOp b ci adding) tr' := by
  unfold IrcParser.ownOp
  dsimp only
  split
  · rename_i hadding
    subst hadding
    have hready : Run P ok (opReady b ci) tr := h.other (asked_eq_nil rfl)
    have hrun := hready.request (.ownOp channel) (hok rfl)
    simp only [Request.run] at hrun
    rw [find_of_names (b := b) (by simp [opReady, name_withEntry]), hfind] at hrun
    exact ⟨_, hrun⟩
  · split
    · exact ⟨tr, h.other (asked_eq_nil rfl)⟩
    · exact ⟨tr, h.other (asked_eq_nil (named_ircPrintf _ _))⟩

/-- One letter of a MODE line is a run. -/
theorem Run.handleModeStep {b : BotState} {x : (Bool × UInt8) × Option Str} (h : Run P ok b tr)
    (hok : opsBot b x = true → ok (opReady b ci) (.ownOp channel))
    (hfind : find b channel = some ci) (managed : Bool) :
    (∃ tr', Run P ok (IrcParser.handleModeStep ci managed b x) tr') ∧
      chanNames (IrcParser.handleModeStep ci managed b x) = chanNames b := by
  have hother {f : Chan → Chan} (hname : ∀ c, (f c).name = c.name) :
      (∃ tr', Run P ok (withChan b ci f) tr') ∧ chanNames (withChan b ci f) = chanNames b :=
    ⟨⟨tr, h.other (asked_eq_nil rfl)⟩, chanNames_withChan b ci hname⟩
  unfold IrcParser.handleModeStep
  split
  · rename_i ho
    cases harg : x.2 with
    | none => exact ⟨⟨tr, h⟩, rfl⟩
    | some arg =>
        show (∃ tr', Run P ok (opChange b ci x.1.1 arg) tr') ∧
          chanNames (opChange b ci x.1.1 arg) = chanNames b
        unfold opChange
        split
        · rename_i hown
          have hopped (hadding : x.1.1 = true) : opsBot b x = true := by
            rw [opsBot, hadding, ho, harg, Option.any_some, hown]
            rfl
          exact ⟨h.ownOp P (fun hadding => hok (hopped hadding)) hfind, chanNames_ownOp b ci x.1.1⟩
        · exact hother fun c => name_withEntry _ _ _
  · split
    · exact hother fun c => name_keyChange _ _ _ _
    · split
      · exact hother fun c => rfl
      · exact ⟨⟨tr, h⟩, rfl⟩

/-- **A MODE line is a run**, in which the bot's own +o is the only request. -/
theorem Run.handleModeChange {b : BotState} {modes args : Str} (h : Run P ok b tr)
    (hok : ∀ s ∈ lineOwnOps b channel modes args, ok s (.ownOp channel)) :
    ∃ tr', Run P ok (IrcParser.handleModeChange b channel modes args) tr' := by
  have hfold (ci : Nat) (managed : Bool) (xs : List ((Bool × UInt8) × Option Str)) :
      ∀ (s : BotState) (tr : List Asked), Run P ok s tr → find s channel = some ci →
        (∀ s' ∈ ownOps ci managed s xs, ok s' (.ownOp channel)) →
          ∃ tr', Run P ok (xs.foldl (IrcParser.handleModeStep ci managed) s) tr' := by
    induction xs with
    | nil => exact fun s tr hrun _ _ => ⟨tr, hrun⟩
    | cons x xs ih =>
        intro s tr hrun hfind hgrants
        obtain ⟨hhead, hrest⟩ := List.forall_mem_append.mp hgrants
        obtain ⟨⟨tr', hstep⟩, hnames⟩ := hrun.handleModeStep P
          (fun hopped => hhead _ (by rw [if_pos hopped]; exact List.mem_singleton_self _)) hfind managed
        exact ih _ tr' hstep ((find_of_names hnames channel).trans hfind) hrest
  unfold lineOwnOps at hok
  unfold IrcParser.handleModeChange
  cases hfind : find b channel with
  | none => exact ⟨tr, h⟩
  | some ci =>
      rw [hfind] at hok
      dsimp only [Option.elim_some] at hok ⊢
      rw [handleModeLoop_eq]
      split
      · rename_i hlen
        rw [if_pos hlen] at hok
        refine hfold ci _ _ _ tr (h.other (asked_eq_nil rfl)) ?_ hok
        have hnames : chanNames (apply b ci modes args false) = chanNames b :=
          chanNames_withChan b ci fun c => name_applyLoop _ _ _ _ _ _ _
        rw [find_of_names hnames, hfind]
      · rename_i hlen
        rw [if_neg hlen] at hok
        exact hfold ci _ _ b tr h hfind hok

end

end IrcBot.OpSafety

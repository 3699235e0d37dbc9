/-
# The nick the bot has, over a connection

The bot and the server it is registered with. The server answers the bot's NICK requests
in order, by a NICK line of the bot's own or by a refusal; it may also rename the bot
unasked. What the server last confirmed, by 001 or by such a NICK line, is the bot's nick
there.

* `Run.tracked` — along a run whose steps are as `Fair` says, the bot counts as its own
  the nick the server last confirmed, or one it has asked for and is not yet answered; so
  with nothing outstanding the two agree.
* `not_tracked` — a refused made-up nick stays the bot's own.
-/
import IrcBot.BotComms
import IrcBot.Nicks
import IrcBot.UserCommands

namespace IrcBot.NickRuns

open Cstr HubPush IrcLine Nicks

variable (P : Primitives)

/-! ### The bot and its server -/

structure Net where
  bot : BotState
  /-- The nick the server last confirmed for the bot. -/
  confirmed : Str
  /-- The nicks asked for and not yet answered, oldest first. -/
  outstanding : List Str

inductive Event where
  /-- 001. -/
  | welcome (params : Str)
  /-- A NICK line of the bot's own that answers its oldest request. -/
  | granted (pre params : Str)
  /-- One that answers none. -/
  | renamed (pre params : Str)
  /-- A NICK line of somebody else. -/
  | stranger (pre params : Str)
  /-- 432 or 433, which answer the oldest request. -/
  | refused (command params : Str)
  /-- A request for the nick the bot has already: nothing is sent. -/
  | passed
  | clock (now monoMs : Int)
  | reclaim
  | givenick (nick : Str)
  | chnick (nick : Str) (a : UserCommands.Args)
  | setnick (nick : Str)

/-- The bot's own side of an event. -/
def Event.handle (b : BotState) : Event → BotState
  | .welcome params => onWelcome b params
  | .granted pre params | .renamed pre params | .stranger pre params => onNick P.sha256 b pre params
  | .refused command params => onNickRefused b command params
  | .passed => b
  | .clock now monoMs => { b with now, monoMs }
  | .reclaim => reclaimNick b
  | .givenick nick => Nicks.givenick b nick
  | .chnick nick a => UserCommands.cmdChnick P b nick a
  | .setnick nick => BotComms.dispatchSetnick b nick

/-- The nick an event confirms. -/
def Event.confirms (confirmed : Str) : Event → Str
  | .welcome params => firstWord params
  | .granted _ params | .renamed _ params => stripColon params
  | _ => confirmed

/-- The event answers the oldest request. -/
def Event.answers : Event → Bool
  | .granted .. | .refused .. | .passed => true
  | _ => false

/-- One event. What the bot asks for is outstanding from then on. -/
def Net.next (net : Net) (e : Event) : Net :=
  let bot := e.handle P net.bot
  let left := if e.answers then net.outstanding.tail else net.outstanding
  { bot
    confirmed := e.confirms net.confirmed
    outstanding := left ++ bot.nickAsked.drop net.bot.nickAsked.length }

/-- The line comes from the nick the server knows the bot by. -/
def Net.ofBot (net : Net) (pre : Str) : Bool := (prefixNick pre).any (eqIc · net.confirmed)

/-- What a server sends. -/
def Net.Sends (net : Net) : Event → Prop
  | .granted pre _ => net.outstanding ≠ [] ∧ net.ofBot pre = true
  | .renamed pre _ => net.ofBot pre = true
  | .stranger pre _ => net.ofBot pre = false
  | .refused command _ => net.outstanding ≠ [] ∧ (command = str "432" ∨ command = str "433")
  | .passed => net.outstanding.head? = some net.confirmed
  | _ => True

/-- The runs from a registration, all of whose steps meet `ok`. -/
inductive Run (ok : Net → Event → Prop) : Net → Prop where
  | registered (b : BotState) (params : Str) (hlink : b.connected = true)
      (hok : ok ⟨b, [], []⟩ (.welcome params)) :
      Run ok ⟨onWelcome b params, firstWord params, []⟩
  | step {net : Net} (e : Event) (hrun : Run ok net) (hsends : net.Sends e) (hok : ok net e) :
      Run ok (net.next P e)

/-! ### The steps that keep the nick -/

/-- The oldest request is the only one for the nick the bot counts as its own, and the
server has not confirmed that nick. -/
def Net.LastAsk (net : Net) : Prop :=
  net.bot.currentNick ≠ net.confirmed ∧
    net.outstanding.head? = some net.bot.currentNick ∧
      net.bot.currentNick ∉ net.outstanding.tail

/-- A step as the bot expects it: the nicks the server gives it fit; a made-up nick is not
refused, and is granted as it was asked for; nobody who has that nick renames. -/
def Fair (net : Net) : Event → Prop
  | .welcome params => firstWord params ≠ [] ∧ (firstWord params).length < maxNick
  | .granted _ params =>
      (stripColon params).length < maxNick ∧
        (net.LastAsk → stripColon params = net.bot.currentNick ∨
          eqIc net.confirmed net.bot.currentNick = true)
  | .renamed _ params => (stripColon params).length < maxNick
  | .stranger pre _ =>
      ∀ old, prefixNick pre = some old → eqIc old net.bot.currentNick = false
  | .refused .. => ¬ net.LastAsk
  | _ => True

/-- **What holds throughout.** -/
structure Tracked (net : Net) : Prop where
  connected : net.bot.connected = true
  authed : net.bot.authed = true
  nick : net.bot.currentNick = net.confirmed ∨ net.bot.currentNick ∈ net.outstanding

/-! ### Local requests -/

/-- An event on the bot's side leaves the nick alone, or makes one up and asks for it. -/
inductive Asks (b b' : BotState) : Prop where
  | keeps (asked : List Str)
      (heq : nickView b' = { nickView b with nickAsked := b.nickAsked ++ asked })
  | makesUp (nick : Str)
      (heq : nickView b' =
        { nickView b with currentNick := nick, nickAsked := b.nickAsked ++ [nick] })

theorem Asks.of_nickView {b b' : BotState} (h : nickView b' = nickView b) : Asks b b' :=
  .keeps [] (by rw [h, List.append_nil]; rfl)

theorem asks_reclaimNick (b : BotState) : Asks b (reclaimNick b) := by
  unfold reclaimNick
  split
  · have hview := nickView_attemptNickChange b b.targetNick
    split at hview
    · exact .keeps [b.targetNick] hview
    · exact .of_nickView hview
  · exact .of_nickView rfl

theorem asks_givenick {b : BotState} (hlink : b.connected = true) (nick : Str) :
    Asks b (givenick b nick) := by
  unfold givenick
  generalize hline : (str "PRIVMSG " ++ nick ++ str " :You have about " ++ dec nickTakeTime ++
    str " seconds to retrieve." ++ crlf) = line
  dsimp only
  have hfirst := nickView_ircPrintf b line
  generalize ircPrintf b line = b₁ at hfirst
  have hlink₁ : b₁.connected = true := (congrArg NickView.connected hfirst).trans hlink
  have hasked : b₁.nickAsked = b.nickAsked := congrArg NickView.nickAsked hfirst
  rcases nickView_generateNewNick b₁ with hsame | ⟨made, hmade⟩
  · exact .of_nickView (hsame.trans hfirst)
  · rw [hlink₁, hasked, if_pos rfl, hfirst] at hmade
    exact .makesUp made hmade

theorem asks_setnick (b : BotState) (nick : Str) : Asks b (BotComms.dispatchSetnick b nick) := by
  unfold BotComms.dispatchSetnick
  refine .of_nickView ?_
  split
  · dsimp only
    rw [nickView_of_push (sameButPush_writeConfig _),
      nickView_of_push (sameButPush_pushDelta _ (str "n") nick b.now)]
    rfl
  · rfl

theorem asks_chnick (b : BotState) (nick : Str) (a : UserCommands.Args) :
    Asks b (UserCommands.cmdChnick P b nick a) := by
  have hsay (b : BotState) (text : Str) : nickView (UserCommands.say b nick text) = nickView b :=
    nickView_ircPrintf b _
  have hwrite (b : BotState) : nickView (writeConfig b) = nickView b :=
    nickView_of_push (sameButPush_writeConfig b)
  have hdelta (b : BotState) (key v : Str) (ts : Int) :
      nickView (pushDelta b key v ts).2 = nickView b :=
    nickView_of_push (sameButPush_pushDelta b key v ts)
  have hadmin (b : BotState) : nickView (pushAdminDelta b) = nickView b :=
    nickView_of_push (sameButPush_pushAdminDelta b)
  have hsend (b : BotState) (target command : Str) :
      nickView (B2.sendCommand P b target command) = nickView b := by
    rw [(Channel.sameButService_sendCommand P b target command).eq]
    rfl
  refine .of_nickView ?_
  unfold UserCommands.cmdChnick
  split
  · split
    · exact hsay b _
    · rename_i old new _ _ _
      unfold UserCommands.rename
      dsimp only
      split
      · split
        · exact hsay b _
        · rw [hsay, hdelta, hwrite]
          rfl
      · split
        · rw [hsay, hadmin, hwrite]
          rfl
        · split
          · exact hsay b _
          · split
            · rfl
            · split
              · exact hsay b _
              · split
                · exact hsay b _
                · rw [hsay, hwrite]
                  exact hsend b _ _
  · exact hsay b _

/-! ### The invariant -/

/-- An event of the bot's own side keeps the invariant. -/
theorem Tracked.local {net : Net} (h : Tracked net) {b' : BotState} (hasks : Asks net.bot b') :
    Tracked ⟨b', net.confirmed,
      net.outstanding ++ b'.nickAsked.drop net.bot.nickAsked.length⟩ := by
  cases hasks with
  | keeps asked heq =>
      obtain ⟨hconn, hauth, hnick, hasked⟩ :
          b'.connected = net.bot.connected ∧ b'.authed = net.bot.authed ∧
            b'.currentNick = net.bot.currentNick ∧
              b'.nickAsked = net.bot.nickAsked ++ asked := by
        simpa [nickView] using heq
      refine ⟨hconn.trans h.connected, hauth.trans h.authed, ?_⟩
      dsimp only
      rw [hnick]
      exact h.nick.imp_right fun hmem => List.mem_append_left _ hmem
  | makesUp nick heq =>
      obtain ⟨hconn, hauth, hnick, hasked⟩ :
          b'.connected = net.bot.connected ∧ b'.authed = net.bot.authed ∧
            b'.currentNick = nick ∧ b'.nickAsked = net.bot.nickAsked ++ [nick] := by
        simpa [nickView] using heq
      refine ⟨hconn.trans h.connected, hauth.trans h.authed, .inr ?_⟩
      dsimp only
      rw [hnick, hasked, List.drop_left]
      exact List.mem_append_right _ (List.mem_singleton.mpr rfl)

/-- What is left of the requests when the oldest is answered, but was not the only one for
the bot's nick. -/
theorem Tracked.answered {net : Net} (h : Tracked net) (hlast : ¬ net.LastAsk) :
    net.bot.currentNick = net.confirmed ∨ net.bot.currentNick ∈ net.outstanding.tail := by
  by_cases hnick : net.bot.currentNick = net.confirmed
  · exact .inl hnick
  · refine .inr ?_
    by_contra htail
    have hmem := h.nick.resolve_left hnick
    refine hlast ⟨hnick, ?_, htail⟩
    cases hout : net.outstanding with
    | nil => simp [hout] at hmem
    | cons r rest =>
        rw [hout] at hmem htail
        rcases List.mem_cons.mp hmem with rfl | hrest
        · rfl
        · exact absurd hrest htail

/-- **One step.** -/
theorem Tracked.step {net : Net} (h : Tracked net) {e : Event} (hsends : net.Sends e)
    (hfair : Fair net e) : Tracked (net.next P e) := by
  -- what a line from the server leaves of the view
  have hline {b' : BotState} {nick : Str} (left : List Str) (confirmed : Str)
      (heq : nickView b' = { nickView net.bot with currentNick := nick })
      (hnick : nick = confirmed ∨ nick ∈ left) :
      Tracked ⟨b', confirmed, left ++ b'.nickAsked.drop net.bot.nickAsked.length⟩ := by
    obtain ⟨hconn, hauth, hcur, hasked⟩ :
        b'.connected = net.bot.connected ∧ b'.authed = net.bot.authed ∧
          b'.currentNick = nick ∧ b'.nickAsked = net.bot.nickAsked := by
      simpa [nickView] using heq
    refine ⟨hconn.trans h.connected, hauth.trans h.authed, ?_⟩
    dsimp only
    rw [hcur]
    exact hnick.imp_right fun hmem => List.mem_append_left _ hmem
  -- a line from the nick the server knows the bot by
  have hown {pre : Str} (hpre : net.ofBot pre = true) :
      (prefixNick pre).any (eqIc · net.bot.currentNick) =
        eqIc net.confirmed net.bot.currentNick := by
    obtain ⟨old, hold, hconf⟩ := (Option.any_eq_true _ _).mp hpre
    rw [hold, Option.any_some, eqIc, eqIc_iff.mp hconf, eqIc]
  have hfits {params : Str} (hlen : (stripColon params).length < maxNick) :
      trunc (stripColon params) maxNick = stripColon params := trunc_of_lt hlen
  have hview (pre params : Str) := nickView_onNick P.sha256 net.bot pre params
  cases e with
  | welcome params =>
      obtain ⟨hne, hlen⟩ := hfair
      have hwelcome := nickView_onWelcome net.bot params
      rw [if_neg (by simpa using ⟨hne, hlen⟩), ← h.authed] at hwelcome
      exact hline net.outstanding (firstWord params) hwelcome (.inl rfl)
  | granted pre params =>
      obtain ⟨hlen, hlast⟩ := hfair
      have hnick := hview pre params
      rw [hown hsends.2, hfits hlen] at hnick
      refine hline net.outstanding.tail (stripColon params) hnick ?_
      split
      · exact .inl rfl
      · rename_i hother
        by_cases hl : net.LastAsk
        · exact .inl ((hlast hl).resolve_right hother).symm
        · refine .inr ((h.answered hl).resolve_left fun heq => hother ?_)
          rw [heq]
          exact eqIc_refl net.confirmed
  | renamed pre params =>
      have hnick := hview pre params
      rw [hown hsends, hfits hfair] at hnick
      refine hline net.outstanding (stripColon params) hnick ?_
      split
      · exact .inl rfl
      · rename_i hother
        refine .inr (h.nick.resolve_left fun heq => hother ?_)
        rw [heq]
        exact eqIc_refl net.confirmed
  | stranger pre params =>
      have hnick := hview pre params
      have hnone : (prefixNick pre).any (eqIc · net.bot.currentNick) = false := by
        cases hpre : prefixNick pre with
        | none => rfl
        | some old => exact hfair old hpre
      rw [hnone, if_neg (by simp)] at hnick
      exact hline net.outstanding net.confirmed hnick h.nick
  | refused command params =>
      exact hline net.outstanding.tail net.confirmed (nickView_onNickRefused h.authed command params)
        (h.answered hfair)
  | passed =>
      refine hline net.outstanding.tail net.confirmed rfl ?_
      by_cases hnick : net.bot.currentNick = net.confirmed
      · exact .inl hnick
      · exact h.answered fun hl => hnick (Option.some.inj (hl.2.1.symm.trans hsends))
  | clock now monoMs => exact h.local (.of_nickView rfl)
  | reclaim => exact h.local (asks_reclaimNick net.bot)
  | givenick nick => exact h.local (asks_givenick h.connected nick)
  | chnick nick a => exact h.local (asks_chnick P net.bot nick a)
  | setnick nick => exact h.local (asks_setnick net.bot nick)

theorem Run.tracked_net {net : Net} (h : Run P Fair net) : Tracked net := by
  induction h with
  | registered b params hlink hok =>
      obtain ⟨hne, hlen⟩ := hok
      have hwelcome := nickView_onWelcome b params
      rw [if_neg (by simpa using ⟨hne, hlen⟩)] at hwelcome
      obtain ⟨hconn, hauth, hnick, -⟩ :
          (onWelcome b params).connected = b.connected ∧ (onWelcome b params).authed = true ∧
            (onWelcome b params).currentNick = firstWord params ∧
              (onWelcome b params).nickAsked = b.nickAsked := by
        simpa [nickView] using hwelcome
      exact ⟨hconn.trans hlink, hauth, .inl hnick⟩
  | step e _ hsends hok ih => exact ih.step P hsends hok

/-- **The bot's nick is the one the server confirmed**, whenever nothing it has asked for is
outstanding, in every run of fair steps. -/
theorem Run.tracked {net : Net} (h : Run P Fair net) (hnone : net.outstanding = []) :
    net.bot.currentNick = net.confirmed := by
  refine (Run.tracked_net P h).nick.resolve_right fun hmem => ?_
  rw [hnone] at hmem
  cases hmem

/-! ### A made-up nick -/

/-- A bot that wants the nick `bot` and has just connected. -/
def fresh : BotState := { connected := true, targetNick := str "bot", currentNick := str "bot" }

/-- It is registered, and lets go of its nick. -/
def letGo : Net :=
  (Net.mk (onWelcome fresh (str "bot :Welcome")) (str "bot") []).next Primitives.clear
    (.givenick (str "admin"))

theorem tracked_letGo :
    (letGo.next Primitives.clear (.granted (str "bot!u@h") (str ":bot_"))).bot.currentNick =
      str "bot_" :=
  Run.tracked Primitives.clear
    (.step (.granted (str "bot!u@h") (str ":bot_"))
      (.step (.givenick (str "admin"))
        (.registered fresh (str "bot :Welcome") rfl ⟨by decide, by decide⟩)
        trivial trivial)
      ⟨by decide, by decide⟩
      ⟨by decide, fun _ => .inl (by decide)⟩)
    (by decide)

/-- The server refuses the made-up nick; the bot counts it as its own from then on. -/
theorem not_tracked :
    ¬ ∀ (P : Primitives) (net : Net), Run P (fun _ _ => True) net → net.outstanding = [] →
      net.bot.currentNick = net.confirmed := by
  intro hall
  have hrun : Run Primitives.clear (fun _ _ => True)
      (letGo.next Primitives.clear (.refused (str "433") (str "bot bot_ :in use"))) :=
    .step _ (.step _ (.registered fresh (str "bot :Welcome") rfl trivial) trivial trivial)
      ⟨by decide, .inr rfl⟩ trivial
  have hnick := hall Primitives.clear _ hrun (by decide)
  revert hnick
  decide

end IrcBot.NickRuns

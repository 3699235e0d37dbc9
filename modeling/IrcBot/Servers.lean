/-
# The servers and their holds (`irc_client.rs`, `commands.rs`)

The servers and the holds on them stand in two lists, and the link remembers by its place which
server it went to. `Dialer` is the same without places: each server has its own hold with it, and
the link knows the server itself.

* `tracks_run` — over every run of commands, refusals and links the two lists stay aligned: each
  hold is that of the server it was recorded for.
* `pickServer_eq` — the server that is dialled is the first one from the cursor on that is not held.
-/
import Mathlib.Data.List.Find
import Mathlib.Data.List.InsertIdx
import IrcBot.ActivityQueries
import IrcBot.Lib.Places
import IrcBot.Refusals

namespace IrcBot.Servers

open Cstr Refusals ServerNumerics Lib.Places

/-! ### The bot -/

/-- What the choice of a server reads and writes. -/
structure DialState extends BotState where
  currentServerIndex : Nat := 0
  serverBlocks : List ServerBlock := List.replicate maxServers {}
  ircBlockedLogged : Bool := false

/-- The refusal counted against the server that the link went to. -/
def strikeServer (s : DialState) (kind : BlockKind) (stated : Int) : Option DialState :=
  match s.ircServerIdx.filter (· < s.serverList.length) with
  | none => some s
  | some idx =>
      if kind = BlockKind.none then some s
      else
        (strike s.now kind stated s.ircRefusal (s.serverBlocks.getD idx {})).map fun b =>
          { s with serverBlocks := s.serverBlocks.set idx b }

/-- `apply_refusal`: what this link was told, once. -/
def applyRefusal (s : DialState) : Option DialState :=
  if s.ircRefusal.isEmpty && !s.ircRefusalBan then some s
  else
    (refusalClassify s.ircRefusal s.ircRefusalBan).bind fun (kind, stated) =>
      (strikeServer s kind stated).map fun s => { s with ircRefusal := [], ircRefusalBan := false }

/-- `note_registered`: the server took the bot. -/
def noteRegistered (s : DialState) : DialState :=
  match s.ircServerIdx.filter (· < s.serverList.length) with
  | none => s
  | some idx => { s with serverBlocks := s.serverBlocks.set idx {} }

/-- `server_block_clear`. -/
def serverBlockClear (s : DialState) (idx : Nat) : DialState :=
  if idx < maxServers then { s with serverBlocks := s.serverBlocks.set idx {}, ircBlockedLogged := false }
  else s

/-- `server_block_remove`, with the server still in the list. -/
def serverBlockRemove (s : DialState) (idx : Nat) : DialState :=
  if s.serverList.length ≤ idx then s
  else
    { s with
      serverBlocks := s.serverBlocks.eraseIdx idx ++ [{}]
      ircServerIdx := s.ircServerIdx.bind fun i =>
        if i = idx then none else if idx < i then some (i - 1) else some i }

/-- A server is not to be dialled. -/
def held (now : Int) (b : ServerBlock) : Bool :=
  b.kind == .bannedPerm || (b.kind != .none && now < b.untilTime)

/-- `pick_server`. -/
def pickServer (s : DialState) (now : Int) : Option Nat × DialState :=
  let n := s.serverList.length
  let start := if s.currentServerIndex < n then s.currentServerIndex else 0
  match (cyclic start n).find? fun i => !held now (s.serverBlocks.getD i {}) with
  | some i => (some i, { s with ircBlockedLogged := false })
  | none => (none, if n = 0 then s else { s with ircBlockedLogged := true })

/-- `connect`, as far as it chooses the server; `reached` tells whether the link came up. -/
def connect (s : DialState) (reached : Bool) : DialState :=
  if s.connected then s
  else
    match pickServer s s.now with
    | (none, s) => s
    | (some pick, s) =>
        { s with
          currentServerIndex := pick + 1, ircServerIdx := some pick
          ircRefusal := [], ircRefusalBan := false, nickRefused := [], connected := reached }

/-- `disconnect`, as far as it concerns the servers. -/
def disconnect (s : DialState) : Option DialState :=
  (applyRefusal s).map fun s => { s with connected := false, authed := false }

/-- `+server`. -/
def addServer (s : DialState) (name : Str) : DialState :=
  if s.serverList.length < maxServers then
    let s := serverBlockClear s s.serverList.length
    { s with serverList := s.serverList ++ [name] }
  else s

/-- `-server`. -/
def delServer (s : DialState) (name : Str) : DialState :=
  match s.serverList.findIdx? (eqIc · name) with
  | none => s
  | some i =>
      let s := serverBlockRemove s i
      { s with serverList := s.serverList.eraseIdx i }

/-- The host of a server, without the port. -/
def hostOf (server : Str) : Str :=
  let s := trunc server 256
  ((ActivityQueries.rfind (byte ':') s).map s.take).getD s

/-- `cmd_jump`: to a server of that host, whatever holds it. -/
def cmdJump (s : DialState) : Option Str → Option DialState
  | none => disconnect s
  | some arg =>
      match s.serverList.findIdx? fun server => eqIc (hostOf server) (hostOf arg) with
      | none => some s
      | some idx => disconnect { serverBlockClear s idx with currentServerIndex := idx }

/-- What happens to the servers. -/
inductive Event where
  | tick (now : Int)
  | addServer (name : Str)
  | delServer (name : Str)
  | jump (arg : Option Str)
  /-- A 465, 463 or ERROR. -/
  | refused (text : Str) (banNumeric : Bool)
  | closed
  | registered
  | dial (reached : Bool)

/-- One event; none where the bot aborts. -/
def step (s : DialState) : Event → Option DialState
  | .tick now => some { s with now }
  | .addServer name => some (addServer s name)
  | .delServer name => some (delServer s name)
  | .jump arg => cmdJump s arg
  | .refused text banNumeric => some { s with toBotState := noteRefusal s.toBotState text banNumeric }
  | .closed => disconnect s
  | .registered => some (noteRegistered s)
  | .dial reached => some (connect s reached)

def run (s : DialState) (events : List Event) : Option DialState := events.foldlM step s

/-- A bot that has read its servers from the configuration. -/
def configured (names : List Str) : DialState := { serverList := names }

/-! ### Servers with their holds -/

/-- A server, told from others of its name by a number. -/
structure Server where
  id : Nat
  name : Str
  block : ServerBlock := {}

/-- The servers, and which of them the link goes or went to. What is not about servers is the
bot's. -/
structure Dialer where
  bot : BotState := {}
  servers : List Server := []
  nextId : Nat := 0
  dialled : Option Nat := none
  cursor : Nat := 0

namespace Dialer

/-- A hold changed. -/
def setHold (a : Dialer) (id : Nat) (f : ServerBlock → ServerBlock) : Dialer :=
  { a with servers := a.servers.map fun v => if v.id = id then { v with block := f v.block } else v }

/-- The refusal, if there is one, counts against the server of the link. -/
def close (a : Dialer) : Dialer :=
  let told := !(a.bot.ircRefusal.isEmpty && !a.bot.ircRefusalBan)
  let verdict := (refusalClassify a.bot.ircRefusal a.bot.ircRefusalBan).getD (.none, 0)
  let struck (b : ServerBlock) := (strike a.bot.now verdict.1 verdict.2 a.bot.ircRefusal b).getD b
  let a := if told && verdict.1 != .none then a.dialled.elim a fun id => a.setHold id struck else a
  { a with bot :=
    { a.bot with ircRefusal := [], ircRefusalBan := false, connected := false, authed := false } }

def add (a : Dialer) (name : Str) : Dialer :=
  if a.servers.length < maxServers then
    { a with servers := a.servers ++ [{ id := a.nextId, name }], nextId := a.nextId + 1 }
  else a

/-- A server goes with its hold; a link to it is a link to no server. -/
def del (a : Dialer) (name : Str) : Dialer :=
  match a.servers.find? fun v => eqIc v.name name with
  | none => a
  | some v =>
      { a with
        servers := a.servers.filter fun w => w.id ≠ v.id
        dialled := a.dialled.filter fun id => id ≠ v.id }

def jump (a : Dialer) : Option Str → Dialer
  | none => a.close
  | some arg =>
      match a.servers.find? fun v => eqIc (hostOf v.name) (hostOf arg) with
      | none => a
      | some v =>
          close { a.setHold v.id fun _ => {} with cursor := (place Server.id a.servers v.id).getD 0 }

def accepted (a : Dialer) : Dialer := a.dialled.elim a fun id => a.setHold id fun _ => {}

/-- The servers in the order in which they are tried. -/
def order (a : Dialer) : List Server :=
  a.servers.rotate (if a.cursor < a.servers.length then a.cursor else 0)

/-- The first server in that order that is not held. -/
def pick (a : Dialer) (now : Int) : Option Server := a.order.find? fun v => !held now v.block

def dial (a : Dialer) (reached : Bool) : Dialer :=
  if a.bot.connected then a
  else
    match a.pick a.bot.now with
    | none => a
    | some v =>
        { a with
          dialled := some v.id, cursor := (place Server.id a.servers v.id).getD 0 + 1
          bot := { a.bot with
            ircRefusal := [], ircRefusalBan := false, nickRefused := [], connected := reached } }

def step (a : Dialer) : Event → Dialer
  | .tick now => { a with bot := { a.bot with now } }
  | .addServer name => a.add name
  | .delServer name => a.del name
  | .jump arg => a.jump arg
  | .refused text banNumeric => { a with bot := noteRefusal a.bot text banNumeric }
  | .closed => a.close
  | .registered => a.accepted
  | .dial reached => a.dial reached

def run (a : Dialer) (events : List Event) : Dialer := events.foldl step a

/-- The configured servers, without a hold. -/
def configured (names : List Str) : Dialer :=
  { servers := names.mapIdx fun id name => { id, name }, nextId := names.length }

/-- Servers are told apart, and there is room for them. -/
structure Ok (a : Dialer) : Prop where
  nodup : (a.servers.map Server.id).Nodup
  fresh : ∀ v ∈ a.servers, v.id < a.nextId
  fits : a.servers.length ≤ maxServers
  known : ∀ id, a.dialled = some id → id ∈ a.servers.map Server.id

/-- The holds in the slots of their servers; the other slots are free. -/
def slots (servers : List Server) : List ServerBlock :=
  servers.map Server.block ++ List.replicate (maxServers - servers.length) ({} : ServerBlock)

/-- The bot's lists. -/
def state (a : Dialer) (logged : Bool) : DialState where
  toBotState := { a.bot with
    serverList := a.servers.map (·.name),
    ircServerIdx := a.dialled.bind (place Server.id a.servers) }
  currentServerIndex := a.cursor
  serverBlocks := slots a.servers
  ircBlockedLogged := logged

variable {a : Dialer}

/-- A hold is all of a server that changes with it. -/
theorem map_setHold {β : Type} {g : Server → β} (hg : ∀ v b, g { v with block := b } = g v)
    (a : Dialer) (id : Nat) (f : ServerBlock → ServerBlock) :
      (a.setHold id f).servers.map g = a.servers.map g := by
  rw [setHold, List.map_map]
  refine List.map_congr_left fun v _ => ?_
  rw [Function.comp_apply]
  split
  · exact hg v _
  · rfl

theorem ids_setHold (a : Dialer) (id : Nat) (f : ServerBlock → ServerBlock) :
    (a.setHold id f).servers.map Server.id = a.servers.map Server.id :=
  map_setHold (fun _ _ => rfl) a id f

theorem Ok.setHold (h : a.Ok) (id : Nat) (f : ServerBlock → ServerBlock) : (a.setHold id f).Ok := by
  refine ⟨ids_setHold a id f ▸ h.nodup, fun v hv => ?_, ?_, fun k hk => ?_⟩
  · obtain ⟨w, hw, rfl⟩ := List.mem_map.mp hv
    have hfresh := h.fresh w hw
    split <;> exact hfresh
  · rw [Dialer.setHold, List.length_map]
    exact h.fits
  · rw [ids_setHold]
    exact h.known k hk

/-- The link's server has a place. -/
theorem Ok.dialled_cases (h : a.Ok) : a.dialled = none ∨
    ∃ i v, a.dialled = some v.id ∧ a.servers[i]? = some v ∧
      place Server.id a.servers v.id = some i := by
  cases hd : a.dialled with
  | none => exact .inl rfl
  | some id =>
      obtain ⟨v, hv, rfl⟩ := List.mem_map.mp (h.known id hd)
      obtain ⟨i, hi⟩ := List.mem_iff_getElem?.mp hv
      exact .inr ⟨i, v, rfl, hi, (place_eq_some_iff h.nodup).mpr ⟨v, hi, rfl⟩⟩

/-- A hold changed at its place in the bot's list. -/
theorem state_setHold (h : a.Ok) {i : Nat} {v : Server} (hi : a.servers[i]? = some v)
    (f : ServerBlock → ServerBlock) (logged : Bool) :
    { a.state logged with serverBlocks := (a.state logged).serverBlocks.set i (f v.block) } =
      (a.setHold v.id f).state logged := by
  have hset : (a.setHold v.id f).servers = a.servers.set i { v with block := f v.block } :=
    (set_eq_map h.nodup hi fun w => { w with block := f w.block }).symm
  have hlt : i < a.servers.length := (List.getElem?_eq_some_iff.mp hi).1
  have hnames : (a.setHold v.id f).servers.map (·.name) = a.servers.map (·.name) :=
    map_setHold (fun _ _ => rfl) a v.id f
  have hplace : place Server.id (a.setHold v.id f).servers = place Server.id a.servers := by
    funext k
    rw [place_eq_findIdx, place_eq_findIdx, ids_setHold]
  have hslots : slots (a.setHold v.id f).servers = (slots a.servers).set i (f v.block) := by
    rw [hset, slots, slots, List.map_set, List.length_set,
      List.set_append_left _ _ (by simpa using hlt)]
  unfold state
  rw [hnames, hplace, hslots]
  rfl

/-- The link's place is one of the list. -/
theorem filter_ircServerIdx (h : a.Ok) (logged : Bool) :
    (a.state logged).ircServerIdx.filter (· < (a.state logged).serverList.length) =
      a.dialled.bind (place Server.id a.servers) := by
  change (a.dialled.bind (place Server.id a.servers)).filter (· < (a.servers.map (·.name)).length) = _
  rcases h.dialled_cases with hnone | ⟨i, v, hd, hi, hplace⟩
  · rw [hnone]
    rfl
  · have hlt : i < a.servers.length := (List.getElem?_eq_some_iff.mp hi).1
    rw [hd, Option.bind_some, hplace, Option.filter_some, if_pos (by simpa using hlt)]

theorem getD_serverBlocks {i : Nat} {v : Server} (hi : a.servers[i]? = some v) (logged : Bool) :
    (a.state logged).serverBlocks.getD i {} = v.block := by
  have hlt : i < a.servers.length := (List.getElem?_eq_some_iff.mp hi).1
  rw [state, slots, List.getD_eq_getElem?_getD, List.getElem?_append_left (by simpa using hlt),
    List.getElem?_map, hi]
  rfl

/-! ### Each event -/

/-- The bot's lists go where the servers with their holds go. -/
def Follows (s : Option DialState) (a : Dialer) : Prop := a.Ok ∧ ∃ logged, s = some (a.state logged)

theorem ok_bot (h : a.Ok) (bot : BotState) : { a with bot }.Ok :=
  ⟨h.nodup, h.fresh, h.fits, h.known⟩

theorem follows_accepted (h : a.Ok) (logged : Bool) :
    Follows (some (noteRegistered (a.state logged))) a.accepted := by
  rw [noteRegistered, filter_ircServerIdx h, accepted]
  rcases h.dialled_cases with hnone | ⟨i, v, hd, hi, hplace⟩
  · rw [hnone]
    exact ⟨h, logged, rfl⟩
  · rw [hd, Option.bind_some, hplace, Option.elim_some]
    exact ⟨h.setHold v.id _, logged, congrArg some (state_setHold h hi (fun _ => {}) logged)⟩

/-- A refusal that is counted. -/
theorem strikeServer_state (h : a.Ok) (logged : Bool) {kind : BlockKind} {stated : Int}
    (hmin : 0 ≤ stated) (hmax : stated ≤ ircBanStatedMax) :
    strikeServer (a.state logged) kind stated = some ((if kind != .none then a.dialled.elim a fun id =>
      a.setHold id fun b => (strike a.bot.now kind stated a.bot.ircRefusal b).getD b else a).state logged) := by
  rw [strikeServer, filter_ircServerIdx h]
  rcases h.dialled_cases with hnone | ⟨i, v, hd, hi, hplace⟩
  · rw [hnone, Option.bind_none, Option.elim_none, ite_self]
  · rw [hd, Option.bind_some, hplace, Option.elim_some]
    dsimp only
    by_cases hkind : kind = .none
    · rw [if_pos hkind, if_neg (by simpa using hkind)]
    · rw [if_neg hkind, if_pos (by simpa using hkind), getD_serverBlocks hi]
      obtain ⟨b', hb'⟩ : ∃ b', strike a.bot.now kind stated a.bot.ircRefusal v.block = some b' := by
        obtain ⟨-, hold, -, hhold, -⟩ := holdFor_some kind hmin hmax
          (if v.block.strikes < 32 then v.block.strikes + 1 else v.block.strikes)
        exact ⟨_, by rw [strike, hhold, Option.map_some]⟩
      change (strike a.bot.now kind stated a.bot.ircRefusal v.block).map _ = _
      rw [← state_setHold h hi, hb']
      rfl

theorem ok_struck (h : a.Ok) (c : Bool) (f : ServerBlock → ServerBlock) :
    (if c then a.dialled.elim a fun id => a.setHold id f else a).Ok := by
  cases c with
  | false => exact h
  | true =>
      cases a.dialled with
      | none => exact h
      | some id => exact h.setHold id f

theorem follows_close (h : a.Ok) (logged : Bool) :
    Follows (disconnect (a.state logged)) a.close := by
  obtain ⟨kind, stated, hclass, hmin, hmax⟩ :=
    refusalClassify_bounded a.bot.ircRefusal a.bot.ircRefusalBan
  refine ⟨ok_bot (ok_struck h _ _) _, logged, ?_⟩
  rw [disconnect, applyRefusal, close]
  change Option.map _ (if (a.bot.ircRefusal.isEmpty && !a.bot.ircRefusalBan) = true then _ else
    (refusalClassify a.bot.ircRefusal a.bot.ircRefusalBan).bind _) = _
  rw [hclass]
  dsimp only
  cases htold : a.bot.ircRefusal.isEmpty && !a.bot.ircRefusalBan with
  | true =>
      rw [Bool.and_eq_true, List.isEmpty_iff, Bool.not_eq_true'] at htold
      have hbot : ({ a.bot with ircRefusal := [], ircRefusalBan := false } : BotState) = a.bot := by
        rw [← htold.1, ← htold.2]
      have hclosed : ({ a.bot with
            ircRefusal := [], ircRefusalBan := false, connected := false,
            authed := false } : BotState) =
          { a.bot with connected := false, authed := false } :=
        congrArg (fun bot : BotState => { bot with connected := false, authed := false }) hbot
      change some (state { a with bot := { a.bot with connected := false, authed := false } } logged) =
        some (state { a with bot := { a.bot with
          ircRefusal := [], ircRefusalBan := false, connected := false, authed := false } } logged)
      rw [hclosed]
  | false =>
      rw [if_neg Bool.false_ne_true, Option.bind_some]
      dsimp only
      rw [strikeServer_state h logged hmin hmax]
      rfl

/-- A server without a hold takes the first free slot. -/
theorem slots_concat {servers : List Server} (hroom : servers.length < maxServers) (id : Nat)
    (name : Str) :
    (slots servers).set servers.length {} = slots (servers ++ [({ id, name } : Server)]) := by
  have hsucc : maxServers - servers.length = maxServers - (servers.length + 1) + 1 := by omega
  rw [slots, slots, List.set_append_right _ _ (by simp), List.length_map, Nat.sub_self,
    List.map_append,
    List.length_append, hsucc, List.replicate_succ, List.set_cons_zero, List.append_assoc]
  rfl

/-- The holds behind one that goes move up with their servers. -/
theorem slots_eraseIdx {servers : List Server} (hfits : servers.length ≤ maxServers) {i : Nat}
    (hlt : i < servers.length) :
    (slots servers).eraseIdx i ++ [({} : ServerBlock)] = slots (servers.eraseIdx i) := by
  have hsucc : maxServers - (servers.length - 1) = maxServers - servers.length + 1 := by omega
  rw [slots, slots, List.eraseIdx_append_of_lt_length (by simpa using hlt), List.eraseIdx_map,
    List.length_eraseIdx_of_lt hlt, hsucc, List.replicate_succ', List.append_assoc]

theorem follows_add (h : a.Ok) (name : Str) (logged : Bool) :
    Follows (some (addServer (a.state logged) name)) (a.add name) := by
  have hlen : (a.state logged).serverList.length = a.servers.length := List.length_map _
  rw [addServer, hlen, add]
  by_cases hroom : a.servers.length < maxServers
  · rw [if_pos hroom, if_pos hroom]
    refine ⟨⟨?_, fun v hv => ?_, ?_, fun id hid => ?_⟩, false, ?_⟩
    · rw [List.map_append, List.nodup_append]
      refine ⟨h.nodup, List.nodup_singleton _, fun i hi j hj => ?_⟩
      obtain ⟨v, hv, rfl⟩ := List.mem_map.mp hi
      rw [List.mem_singleton.mp hj]
      exact Nat.ne_of_lt (h.fresh v hv)
    · rcases List.mem_append.mp hv with hv | hv
      · exact Nat.lt_succ_of_lt (h.fresh v hv)
      · rw [List.mem_singleton.mp hv]
        exact Nat.lt_succ_self _
    · rw [List.length_append]
      exact hroom
    · rw [List.map_append]
      exact List.mem_append_left _ (h.known id hid)
    · have hlink : a.dialled.bind (place Server.id (a.servers ++ [{ id := a.nextId, name }])) =
          a.dialled.bind (place Server.id a.servers) := by
        cases hd : a.dialled with
        | none => rfl
        | some id => exact place_concat (h.known id hd) _
      rw [serverBlockClear, if_pos hroom]
      unfold state
      dsimp only
      rw [hlink, slots_concat hroom a.nextId name, List.map_append]
      rfl
  · rw [if_neg hroom, if_neg hroom]
    exact ⟨h, logged, rfl⟩

/-- A search by name finds a server at its place. -/
theorem findIdx_servers (a : Dialer) (p : Str → Bool) :
    (a.servers.map (·.name)).findIdx? p = none ∧ a.servers.find? (fun v => p v.name) = none ∨
      ∃ i v, (a.servers.map (·.name)).findIdx? p = some i ∧
        a.servers.find? (fun v => p v.name) = some v ∧
        a.servers[i]? = some v := by
  rw [List.findIdx?_map]
  cases hfind : a.servers.findIdx? (p ∘ (·.name)) with
  | none =>
      refine .inl ⟨rfl, List.find?_eq_none.mpr fun v hv => ?_⟩
      simpa using List.findIdx?_eq_none_iff.mp hfind v hv
  | some i =>
      obtain ⟨hi, hp, hbefore⟩ := List.findIdx?_eq_some_iff_getElem.mp hfind
      exact .inr ⟨i, a.servers[i], rfl,
        List.find?_eq_some_iff_getElem.mpr ⟨hp, i, hi, rfl, fun j hj => by
        simpa using hbefore j hj⟩, List.getElem?_eq_getElem hi⟩

theorem follows_del (h : a.Ok) (name : Str) (logged : Bool) :
    Follows (some (delServer (a.state logged) name)) (a.del name) := by
  rw [delServer, del]
  change Follows (some (match (a.servers.map (·.name)).findIdx? (eqIc · name) with | none => _ | some i => _)) _
  rcases a.findIdx_servers (eqIc · name) with ⟨hidx, hfind⟩ | ⟨i, v, hidx, hfind, hi⟩
  · rw [hidx, hfind]
    exact ⟨h, logged, rfl⟩
  · rw [hidx, hfind]
    dsimp only
    have hlt : i < a.servers.length := (List.getElem?_eq_some_iff.mp hi).1
    have herase : (a.servers.filter fun w => w.id ≠ v.id) = a.servers.eraseIdx i :=
      (eraseIdx_eq_filter h.nodup hi).symm
    rw [herase]
    refine ⟨⟨?_, fun w hw => h.fresh w (List.mem_of_mem_eraseIdx hw), ?_, fun id hid => ?_⟩, logged, ?_⟩
    · exact h.nodup.sublist ((List.eraseIdx_sublist _ _).map _)
    · exact Nat.le_trans (List.length_eraseIdx_le _ _) h.fits
    · obtain ⟨hid, hne⟩ := Option.filter_eq_some_iff.mp hid
      obtain ⟨w, hw, rfl⟩ := List.mem_map.mp (h.known id hid)
      rw [← herase]
      exact List.mem_map_of_mem (List.mem_filter.mpr ⟨hw, hne⟩)
    · have hlink : ((a.dialled.filter fun id => id ≠ v.id).bind (place Server.id (a.servers.eraseIdx i))) =
          (a.dialled.bind (place Server.id a.servers)).bind fun j =>
            if j = i then none else if i < j then some (j - 1) else some j := by
        cases a.dialled with
        | none => rfl
        | some id =>
            rw [Option.bind_some, ← place_eraseIdx h.nodup hlt, Option.filter_some]
            by_cases hid : id = v.id
            · have hgone : place Server.id (a.servers.eraseIdx i) id = none := by
                rw [place_eq_none_iff, ← herase, hid]
                simp
              rw [if_neg (by simpa using hid), hgone]
              rfl
            · rw [if_pos (by simpa using hid)]
              rfl
      have hlen : ¬ (a.state logged).serverList.length ≤ i := by
        rw [Nat.not_le]
        exact @List.length_map _ _ a.servers Server.name ▸ hlt
      rw [serverBlockRemove.eq_1, if_neg hlen]
      unfold state
      dsimp only
      rw [hlink, slots_eraseIdx h.fits hlt, List.eraseIdx_map]

/-- **The server that is dialled** is the first one from the cursor on that is not held. -/
theorem pickServer_eq (h : a.Ok) (logged : Bool) (now : Int) : ∃ logged',
    pickServer (a.state logged) now =
      ((a.pick now).bind fun v => place Server.id a.servers v.id, a.state logged') := by
  have hlen : (a.state logged).serverList.length = a.servers.length := List.length_map _
  have hfree : ∀ i ∈ cyclic (if a.cursor < a.servers.length then a.cursor else 0) a.servers.length,
      (!held now ((a.state logged).serverBlocks.getD i {})) =
        (a.servers[i]?).any fun v => !held now v.block := by
    intro i hi
    have hget := List.getElem?_eq_getElem (lt_of_mem_cyclic hi)
    rw [getD_serverBlocks hget, hget, Option.any_some]
  have hfind := find_cyclic (l := a.servers) (if a.cursor < a.servers.length then a.cursor else 0)
    fun v => !held now v.block
  rw [← List.find?_congr hfree] at hfind
  rw [pickServer, hlen, show (a.state logged).currentServerIndex = a.cursor from rfl, pick,
    order, ← hfind]
  cases hpick : (cyclic (if a.cursor < a.servers.length then a.cursor else 0) a.servers.length).find?
      fun i => !held now ((a.state logged).serverBlocks.getD i {}) with
  | none =>
      dsimp only
      by_cases hn : a.servers.length = 0
      · rw [if_pos hn]
        exact ⟨logged, rfl⟩
      · rw [if_neg hn]
        exact ⟨true, rfl⟩
  | some i =>
      have hget := List.getElem?_eq_getElem (lt_of_mem_cyclic (List.mem_of_find?_eq_some hpick))
      refine ⟨false, ?_⟩
      rw [Option.bind_some, hget, Option.bind_some, (place_eq_some_iff h.nodup).mpr ⟨_, hget, rfl⟩]
      rfl

/-- No server is picked exactly when all of them are held. -/
theorem pick_eq_none_iff (a : Dialer) (now : Int) :
    a.pick now = none ↔ ∀ v ∈ a.servers, held now v.block = true := by
  rw [pick, order, List.find?_eq_none]
  simp [List.mem_rotate]

theorem mem_of_pick {now : Int} {v : Server} (h : a.pick now = some v) : v ∈ a.servers :=
  List.mem_rotate.mp (List.mem_of_find?_eq_some h)

theorem follows_dial (h : a.Ok) (reached logged : Bool) :
    Follows (some (connect (a.state logged) reached)) (a.dial reached) := by
  rw [connect, dial]
  change Follows (some (if a.bot.connected = true then _ else
    match pickServer (a.state logged) a.bot.now with | (none, s) => s | (some pick, s) => _)) _
  cases a.bot.connected with
  | true => exact ⟨h, logged, rfl⟩
  | false =>
      rw [if_neg Bool.false_ne_true, if_neg Bool.false_ne_true]
      obtain ⟨logged', hpick⟩ := pickServer_eq h logged a.bot.now
      rw [hpick]
      cases hv : a.pick a.bot.now with
      | none => exact ⟨h, logged', rfl⟩
      | some v =>
          have hmem : v ∈ a.servers := mem_of_pick hv
          obtain ⟨i, hi⟩ := List.mem_iff_getElem?.mp hmem
          have hplace := (place_eq_some_iff h.nodup).mpr ⟨v, hi, rfl⟩
          rw [Option.bind_some, hplace]
          refine ⟨⟨h.nodup, h.fresh, h.fits, fun id hid => ?_⟩, logged', ?_⟩
          · rw [← Option.some.inj hid]
            exact List.mem_map_of_mem hmem
          · unfold state
            dsimp only
            rw [Option.bind_some, hplace, Option.getD_some]

theorem follows_jump (h : a.Ok) (arg : Option Str) (logged : Bool) :
    Follows (cmdJump (a.state logged) arg) (a.jump arg) := by
  cases arg with
  | none => exact follows_close h logged
  | some arg =>
      rw [cmdJump, jump]
      change Follows (match (a.servers.map (·.name)).findIdx? (fun server => eqIc (hostOf server) (hostOf arg)) with
        | none => _ | some idx => _) _
      rcases a.findIdx_servers fun server => eqIc (hostOf server) (hostOf arg) with
        ⟨hidx, hfind⟩ | ⟨i, v, hidx, hfind, hi⟩
      · rw [hidx, hfind]
        exact ⟨h, logged, rfl⟩
      · rw [hidx, hfind]
        dsimp only
        have hlt : i < maxServers := Nat.lt_of_lt_of_le (List.getElem?_eq_some_iff.mp hi).1 h.fits
        have hcleared : { serverBlockClear (a.state logged) i with currentServerIndex := i } =
            ({ a.setHold v.id fun _ => {} with cursor := i } : Dialer).state false := by
          rw [serverBlockClear, if_pos hlt]
          exact congrArg (fun s : DialState => { s with currentServerIndex := i })
            (state_setHold h hi (fun _ => {}) false)
        have hok : ({ a.setHold v.id fun _ => {} with cursor := i } : Dialer).Ok :=
          have hset := h.setHold v.id fun _ => {}
          ⟨hset.nodup, hset.fresh, hset.fits, hset.known⟩
        rw [hcleared, (place_eq_some_iff h.nodup).mpr ⟨v, hi, rfl⟩, Option.getD_some]
        exact follows_close hok false

/-- **Every event** does to the bot's lists what it does to the servers with their holds. -/
theorem follows_step (h : a.Ok) (logged : Bool) (e : Event) :
    Follows (Servers.step (a.state logged) e) (a.step e) := by
  cases e with
  | tick now => exact ⟨ok_bot h _, logged, rfl⟩
  | addServer name => exact follows_add h name logged
  | delServer name => exact follows_del h name logged
  | jump arg => exact follows_jump h arg logged
  | refused text banNumeric => exact ⟨ok_bot h _, logged, rfl⟩
  | closed => exact follows_close h logged
  | registered => exact follows_accepted h logged
  | dial reached => exact follows_dial h reached logged

theorem follows_run (events : List Event) : ∀ {a : Dialer} (_ : a.Ok) (logged : Bool),
    Follows (Servers.run (a.state logged) events) (a.run events) := by
  induction events with
  | nil => exact fun h logged => ⟨h, logged, rfl⟩
  | cons e events ih =>
      intro a h logged
      obtain ⟨hok, logged', hstep⟩ := follows_step h logged e
      have hrun : Servers.run (a.state logged) (e :: events) =
          (Servers.step (a.state logged) e).bind fun s => Servers.run s events := List.foldlM_cons
      rw [hrun, hstep, Option.bind_some]
      exact ih hok logged'

theorem mem_setHold {id : Nat} {f : ServerBlock → ServerBlock} {v : Server}
    (h : v ∈ (a.setHold id f).servers) : v ∈ a.servers ∨ v.id = id := by
  obtain ⟨w, hw, rfl⟩ := List.mem_map.mp h
  split
  · rename_i hid
    exact .inr hid
  · exact .inl hw

theorem mem_elim_setHold {link : Option Nat} {f : ServerBlock → ServerBlock} {v : Server}
    (h : v ∈ (link.elim a fun id => a.setHold id f).servers) :
    v ∈ a.servers ∨ link = some v.id := by
  cases link with
  | none => exact .inl h
  | some id => exact (mem_setHold h).imp_right fun hid => congrArg some hid.symm

theorem mem_close {v : Server} (h : v ∈ a.close.servers) :
    v ∈ a.servers ∨ a.dialled = some v.id := by
  rw [close] at h
  dsimp only at h
  split at h
  · exact mem_elim_setHold h
  · exact .inl h

/-- **A hold stays with its server.** A server after an event is as it was before, or it is new and
without a hold; or it is the server of the link, or the one that is jumped to. -/
theorem hold_step (a : Dialer) (e : Event) {v : Server} (h : v ∈ (a.step e).servers) :
    v ∈ a.servers ∨ v.id = a.nextId ∧ v.block = {} ∨ a.dialled = some v.id ∨
      ∃ arg w, e = .jump (some arg) ∧
        a.servers.find? (fun x => eqIc (hostOf x.name) (hostOf arg)) = some w ∧ v.id = w.id := by
  cases e with
  | tick now => exact .inl h
  | refused text banNumeric => exact .inl h
  | closed => exact (mem_close h).imp_right fun hd => .inr (.inl hd)
  | registered => exact (mem_elim_setHold h).imp_right fun hd => .inr (.inl hd)
  | addServer name =>
      change v ∈ (a.add name).servers at h
      rw [add] at h
      split at h
      · refine (List.mem_append.mp h).imp_right fun hv => .inl ?_
        rw [List.mem_singleton.mp hv]
        exact ⟨rfl, rfl⟩
      · exact .inl h
  | delServer name =>
      change v ∈ (a.del name).servers at h
      rw [del] at h
      split at h
      · exact .inl h
      · exact .inl (List.mem_filter.mp h).1
  | dial reached =>
      change v ∈ (a.dial reached).servers at h
      rw [dial] at h
      split at h
      · exact .inl h
      · split at h
        · exact .inl h
        · exact .inl h
  | jump arg =>
      cases arg with
      | none => exact (mem_close h).imp_right fun hd => .inr (.inl hd)
      | some arg =>
          change v ∈ (a.jump (some arg)).servers at h
          rw [jump] at h
          split at h
          · exact .inl h
          · rename_i w hfind
            rcases mem_close h with hv | hd
            · change v ∈ (a.setHold w.id fun _ => {}).servers at hv
              exact (mem_setHold hv).imp_right fun hid => .inr (.inr ⟨arg, w, rfl, hfind, hid⟩)
            · exact .inr (.inr (.inl hd))

/-- The configured servers have no holds. -/
theorem state_configured {names : List Str} (h : names.length ≤ maxServers) :
    (configured names).Ok ∧ (configured names).state false = Servers.configured names := by
  have hids : (configured names).servers.map Server.id = List.range names.length :=
    List.ext_getElem (by simp [configured]) fun i _ _ => by simp [configured]
  have hnames : (configured names).servers.map Server.name = names :=
    List.ext_getElem (by simp [configured]) fun i _ _ => by simp [configured]
  have hblocks : (configured names).servers.map Server.block = List.replicate names.length {} :=
    List.ext_getElem (by simp [configured]) fun i _ _ => by simp [configured]
  have hlen : (configured names).servers.length = names.length := by simp [configured]
  refine ⟨⟨hids ▸ List.nodup_range, fun v hv => ?_, hlen ▸ h, fun id hid => ?_⟩, ?_⟩
  · have hid : v.id ∈ List.range names.length := hids ▸ List.mem_map_of_mem hv
    exact List.mem_range.mp hid
  · cases hid
  · have hslots : slots (configured names).servers = List.replicate maxServers {} := by
      rw [slots, hblocks, hlen, List.replicate_append_replicate, Nat.add_sub_cancel' h]
    unfold state
    rw [hnames, hslots]
    rfl

end Dialer

/-! ### Whole runs -/

/-- The bot's two lists and its link, place by place. -/
structure Aligned (a : Dialer) (s : DialState) : Prop where
  names : s.serverList = a.servers.map Server.name
  holds : ∀ (i : Nat) (v : Server), a.servers[i]? = some v → s.serverBlocks[i]? = some v.block
  slots : s.serverBlocks.length = maxServers ∧ a.servers.length ≤ maxServers
  link : s.ircServerIdx = a.dialled.bind (place Server.id a.servers)

theorem Dialer.Ok.aligned {a : Dialer} (h : a.Ok) (logged : Bool) : Aligned a (a.state logged) := by
  refine ⟨rfl, fun i v hi => ?_, ⟨?_, h.fits⟩, rfl⟩
  · have hlt : i < a.servers.length := (List.getElem?_eq_some_iff.mp hi).1
    rw [Dialer.state, Dialer.slots, List.getElem?_append_left (by simpa using hlt),
      List.getElem?_map, hi]
    rfl
  · rw [Dialer.state, Dialer.slots, List.length_append, List.length_map, List.length_replicate,
      Nat.add_sub_cancel' h.fits]

/-- **Holds stay with their servers.** Over every run from a configuration the bot does not abort,
its lists are those of the servers with their own holds, and what is dialled is the first server
from the cursor on that is not held: none exactly if all are. -/
theorem tracks_run {names : List Str} (h : names.length ≤ maxServers) (events : List Event) :
    ∃ s, run (configured names) events = some s ∧
      Aligned ((Dialer.configured names).run events) s ∧
      ∀ now, (pickServer s now).1 = (((Dialer.configured names).run events).pick now).bind (fun v =>
          place Server.id ((Dialer.configured names).run events).servers v.id) ∧
        ((pickServer s now).1 = none ↔
          ∀ v ∈ ((Dialer.configured names).run events).servers, held now v.block = true) := by
  obtain ⟨hok, hstate⟩ := Dialer.state_configured h
  obtain ⟨hok', logged, hrun⟩ := Dialer.follows_run events hok false
  rw [hstate] at hrun
  generalize (Dialer.configured names).run events = a at hok' hrun
  refine ⟨a.state logged, hrun, hok'.aligned logged, fun now => ?_⟩
  obtain ⟨logged', hpick⟩ := Dialer.pickServer_eq hok' logged now
  rw [hpick]
  refine ⟨rfl, ?_⟩
  rw [← Dialer.pick_eq_none_iff]
  cases hv : a.pick now with
  | none => exact iff_of_true rfl rfl
  | some v =>
      obtain ⟨i, hi⟩ := List.mem_iff_getElem?.mp (Dialer.mem_of_pick hv)
      have hplace : place Server.id a.servers v.id = some i :=
        (place_eq_some_iff hok'.nodup).mpr ⟨v, hi, rfl⟩
      rw [Option.bind_some, hplace]
      exact iff_of_false nofun nofun

/-- The first server goes while the bot is on the second, which throttles it then. -/
theorem tracks_run_removed : ∃ s,
    run (configured [str "a.net:6667", str "b.net:6667"])
      [.dial true, .refused (str "K-lined") true, .closed, .dial true, .delServer (str "A.net:6667"),
        .refused (str "Throttled") false, .closed] = some s ∧
      (pickServer s 59).1 = none ∧ (pickServer s 60).1 = some 0 := by
  have hlen : [str "a.net:6667", str "b.net:6667"].length ≤ maxServers := by decide
  obtain ⟨s, hrun, -, hpick⟩ := tracks_run hlen
    [.dial true, .refused (str "K-lined") true, .closed, .dial true, .delServer (str "A.net:6667"),
      .refused (str "Throttled") false, .closed]
  exact ⟨s, hrun, (hpick 59).2.mpr (by decide), (hpick 60).1.trans (by decide)⟩

end IrcBot.Servers

import Availability.Client.MultiClient
import Availability.Proofs.Checked
import Availability.Proofs.Client.Pool
import Availability.Proofs.Client.Protocol

/-!
# Connecting is all or nothing

The services of a node are connected to one after the other, and any of these connections may fail.
The clients made until then are lost to the caller, who is left with the failure; what closes them
is the closer that each of them was handed to. So it is the closer that has to know all of them,
**at every moment** at which a connection may fail.

* `Settings.connect_eq_ok_iff` – the conditions under which a service is connected;
* `MultiClient.Opened` – what is known after some services are connected: the closer holds exactly
  their clients, and all of them are open;
* `Opened.connectOne` – one more connection keeps this, and `Opened.connectMany` says it of many;
* `MultiClient.AllOpen`, `MultiClient.GivenUp` – what a caller has in the end: a client of each
  service, or none that is open;
* `connect_all_or_nothing` – **there is nothing between the two**, and which of them it is depends
  on the scheme of the address and the connections alone.
-/

namespace Availability

/-! ### One connection -/

/-- **A connection is made** to an address with a protocol, when the token can be sent and the
dialling succeeds. -/
theorem Settings.connect_eq_ok_iff {settings : Settings}
    {dial : String → Except CallFailure Unit} {url : String} {protocol : Protocol} :
    settings.connect dial url = .ok protocol ↔
      Protocol.ofUrl? url = some protocol ∧ settings.token.all isSendable = true ∧
        dial url = .ok () := by
  rw [connect]
  cases h : Protocol.ofUrl? url with
  | none => simp
  | some found =>
    simp only [Checked.throw_bind, Checked.ite_throw_eq_ok_iff, Checked.bind_eq_ok_iff,
      Checked.exists_unit_iff, Checked.mapError_eq_ok_iff, Checked.pure_eq_ok_iff,
      Bool.not_eq_true', Bool.not_eq_false, Option.some.injEq]
    constructor
    · rintro ⟨htoken, hdial, rfl⟩
      exact ⟨rfl, htoken, hdial⟩
    · rintro ⟨rfl, htoken, hdial⟩
      exact ⟨htoken, hdial, rfl⟩

/-- The address of a service has a protocol when that of the node has one. -/
theorem Service.ofUrl?_url (s : Service) (url : String) :
    Protocol.ofUrl? (s.url url) =
      if s.hasSubscriptions then (Protocol.ofUrl? url).map fun _ => .websocket
      else Protocol.ofUrl? url := by
  rw [Service.url]
  split
  case isTrue => exact Protocol.ofUrl?_websocketUrl url
  case isFalse => rfl

/-- Every service is connected to. -/
theorem Service.mem_all (s : Service) : s ∈ all := by
  cases s <;> decide

namespace MultiClient

section Connect

variable (settings : Settings) (dial : Service → String → Except CallFailure Unit) (url : String)

/-! ### One connection after the other -/

/-- What is known after some services are connected. -/
structure Opened (services : List Service) (clients : List (Service × Client))
    (pool : ClientPool) : Prop where
  /-- There is a client of each of the services, in order. -/
  services_eq : clients.map Prod.fst = services
  /-- The clients are numbered in order, so that no two of them are the same one. -/
  ids_eq : (clients.map fun entry => entry.2.id) = List.range clients.length
  /-- The closer holds all clients, and nothing else. -/
  held_eq : pool.held = some (clients.map fun entry => entry.2.id)
  /-- No client is closed. -/
  closed_eq : pool.closed = []
  /-- Each client is the one that the connection of its service gave. -/
  connected : ∀ entry ∈ clients, entry.2.url = entry.1.url url ∧
    settings.connect (dial entry.1) (entry.1.url url) = .ok entry.2.protocol

/-- Nothing is connected at the beginning. -/
theorem Opened.nothing : Opened settings dial url [] [] .empty where
  services_eq := rfl
  ids_eq := rfl
  held_eq := rfl
  closed_eq := rfl
  connected _ h := absurd h List.not_mem_nil

variable {settings dial url} {services : List Service} {clients : List (Service × Client)}
  {pool : ClientPool} {s : Service}

section Keeps

variable (h : Opened settings dial url services clients pool)
include h

/-- One more connection keeps what is known: the closer is handed the client before the next
connection is tried. -/
theorem Opened.connectOne {protocol : Protocol}
    (hs : settings.connect (dial s) (s.url url) = .ok protocol) :
    Opened settings dial url (services ++ [s])
      (clients ++ [(s, { id := clients.length, url := s.url url, protocol })])
      (pool.register clients.length) := by
  rw [ClientPool.register_of_open h.held_eq]
  refine ⟨?_, ?_, ?_, h.closed_eq, ?_⟩
  · rw [List.map_append, h.services_eq, List.map_singleton]
  · rw [List.map_append, h.ids_eq, List.length_append, List.length_singleton, List.range_succ,
      List.map_singleton]
  · rw [List.map_append, List.map_singleton]
  · intro entry hentry
    rcases List.mem_append.mp hentry with hbefore | hlast
    · exact h.connected entry hbefore
    · obtain rfl := List.mem_singleton.mp hlast
      exact ⟨rfl, hs⟩

/-- **Connecting to more services** keeps what is known, as long as no connection fails. -/
theorem Opened.connectMany {more : List Service}
    (hmore : ∀ s ∈ more, ∃ protocol, settings.connect (dial s) (s.url url) = .ok protocol) :
    ∃ clients' pool', connectEach settings dial url clients pool more = (.ok clients', pool') ∧
      Opened settings dial url (services ++ more) clients' pool' := by
  -- what is known is about the services that were passed, so these grow while the others get fewer
  induction more generalizing services clients pool with
  | nil => exact ⟨clients, pool, rfl, (List.append_nil services).symm ▸ h⟩
  | cons s more ih =>
    obtain ⟨⟨protocol, hs⟩, hrest⟩ := List.forall_mem_cons.mp hmore
    obtain ⟨clients', pool', heq, hopened⟩ := ih (h.connectOne hs) hrest
    refine ⟨clients', pool', ?_, ?_⟩
    · rw [connectEach, hs]
      exact heq
    · rwa [List.append_assoc, List.singleton_append] at hopened

/-- The clients that are connected are open. -/
theorem Opened.isClientClosed (client : ClientId) : pool.isClientClosed client = false := by
  rw [ClientPool.isClientClosed, h.closed_eq]
  rfl

/-- **All clients that are connected are closed with the closer.** -/
theorem Opened.isClientClosed_closeAll {entry : Service × Client} (hentry : entry ∈ clients) :
    pool.closeAll.isClientClosed entry.2.id = true := by
  rw [ClientPool.closeAll_of_open h.held_eq, ClientPool.isClientClosed_iff, h.closed_eq]
  exact List.mem_map_of_mem hentry

end Keeps

/-- **The first connection that fails** ends it all, whatever the services after it. -/
theorem connectEach_of_first_error {e : ClientError} {after : List Service}
    {clients' : List (Service × Client)} {pool' : ClientPool}
    (h : connectEach settings dial url clients pool services = (.ok clients', pool'))
    (hs : settings.connect (dial s) (s.url url) = .error e) :
    connectEach settings dial url clients pool (services ++ s :: after) =
      (.error e, pool'.closeAll) := by
  induction services generalizing clients pool with
  | nil =>
    rw [connectEach, Prod.mk.injEq, Except.ok.injEq] at h
    obtain ⟨rfl, rfl⟩ := h
    rw [List.nil_append, connectEach, hs]
  | cons first rest ih =>
    rw [List.cons_append]
    rw [connectEach] at h ⊢
    split at h
    case h_1 => cases h
    case h_2 => exact ih h

/-! ### What a caller has in the end -/

variable (settings dial url)

/-- The node cannot be connected to: its address has no known scheme, or the connection of some
service fails. -/
def Unconnectable : Prop :=
  (∀ scheme rest, Protocol.Splits url scheme rest → scheme ∉ Protocol.schemes) ∨
    ∃ s e, settings.connect (dial s) (s.url url) = .error e

/-- **All**: every service of the node has a client of its own, which is open. -/
structure AllOpen (m : MultiClient) : Prop where
  /-- There is a client of each service. -/
  services_eq : m.clients.map Prod.fst = Service.all
  /-- There are nine of them. -/
  length_eq : m.clients.length = 9
  /-- No two of the clients are the same one. -/
  nodup : (m.clients.map fun entry => entry.2.id).Nodup
  /-- The closer is open. -/
  isClosed_eq : m.isClosed = false
  /-- The closer holds exactly the clients. -/
  held_eq : m.pool.held = some (m.clients.map fun entry => entry.2.id)
  /-- The clients are open. -/
  isClientClosed_eq : ∀ entry ∈ m.clients, m.pool.isClientClosed entry.2.id = false
  /-- Services with subscriptions are reached over websockets, at the address of the node with
  another scheme and the same after the first colon. -/
  subscribing : ∀ entry ∈ m.clients, entry.1.hasSubscriptions = true →
    entry.2.protocol = .websocket ∧
      ∃ scheme rest, scheme ∈ Protocol.schemes ∧ Protocol.Splits url scheme rest ∧
        entry.2.url = Protocol.websocketScheme scheme ++ ":" ++ rest
  /-- The others are reached as the address says. -/
  asGiven : ∀ entry ∈ m.clients, entry.1.hasSubscriptions = false →
    Protocol.ofUrl? url = some entry.2.protocol ∧ entry.2.url = url
  /-- Blobs are checked by the rules of the settings. -/
  app_eq : m.app = settings.app

/-- **Nothing**: the connection of a service failed, and the clients of those before it are
closed. -/
structure GivenUp (failed : Service) (clients : List (Service × Client)) (e : ClientError)
    (pool : ClientPool) : Prop where
  /-- The connection of the service failed. -/
  failed_eq : settings.connect (dial failed) (failed.url url) = .error e
  /-- The services before it have clients. -/
  services_eq : ∃ after, Service.all = clients.map Prod.fst ++ failed :: after
  /-- These clients are what connecting to the services before it gave, all of them open. -/
  connected : ∃ opened,
    connectEach settings dial url [] .empty (clients.map Prod.fst) = (.ok clients, opened) ∧
      ∀ entry ∈ clients, opened.isClientClosed entry.2.id = false
  /-- The closer is closed. -/
  isClosed_eq : pool.isClosed = true
  /-- All of these clients are closed. -/
  isClientClosed_eq : ∀ entry ∈ clients, pool.isClientClosed entry.2.id = true

variable {settings dial url}

/-- An address without a known scheme fails with the first service already. -/
theorem unconnectable_iff :
    Unconnectable settings dial url ↔
      ∃ s e, settings.connect (dial s) (s.url url) = .error e := by
  refine ⟨?_, Or.inr⟩
  rintro (hscheme | hfails)
  · have hnone := Protocol.ofUrl?_eq_none_iff.mpr hscheme
    -- the address of this service is another one, which has no protocol either
    cases h : settings.connect (dial .blob) (Service.url .blob url) with
    | error e => exact ⟨_, _, h⟩
    | ok protocol =>
      have hsome := (Settings.connect_eq_ok_iff.mp h).1
      rw [Service.ofUrl?_url, hnone] at hsome
      cases hsome
  · exact hfails

theorem not_unconnectable_iff :
    ¬Unconnectable settings dial url ↔
      ∀ s, ∃ protocol, settings.connect (dial s) (s.url url) = .ok protocol := by
  rw [unconnectable_iff, not_exists]
  refine forall_congr' fun s => ?_
  cases settings.connect (dial s) (s.url url) with
  | error e => simp
  | ok protocol => simp

/-- The address of a service with subscriptions is that of the node, but for its scheme. -/
theorem exists_splits_of_connect {protocol : Protocol} (hs : s.hasSubscriptions = true)
    (h : settings.connect (dial s) (s.url url) = .ok protocol) :
    protocol = .websocket ∧
      ∃ scheme rest, scheme ∈ Protocol.schemes ∧ Protocol.Splits url scheme rest ∧
        s.url url = Protocol.websocketScheme scheme ++ ":" ++ rest := by
  have hprotocol := (Settings.connect_eq_ok_iff.mp h).1
  rw [Service.ofUrl?_url, if_pos hs, Option.map_eq_some_iff] at hprotocol
  obtain ⟨given, hgiven, rfl⟩ := hprotocol
  have hknown : ¬∀ scheme rest, Protocol.Splits url scheme rest → scheme ∉ Protocol.schemes := by
    intro hscheme
    rw [Protocol.ofUrl?_eq_none_iff.mpr hscheme] at hgiven
    cases hgiven
  simp only [not_forall, not_not] at hknown
  obtain ⟨scheme, rest, hsplits, hscheme⟩ := hknown
  refine ⟨rfl, scheme, rest, hscheme, hsplits, ?_⟩
  rw [Service.url, if_pos hs]
  exact Protocol.websocketUrl_of_splits hsplits

/-- When all services are connected, the caller has a client of each of them. -/
theorem Opened.allOpen (h : Opened settings dial url Service.all clients pool) :
    AllOpen settings url { clients, pool, app := settings.app } where
  services_eq := h.services_eq
  length_eq := by
    have hlength := congrArg List.length h.services_eq
    rwa [List.length_map] at hlength
  nodup := h.ids_eq ▸ List.nodup_range
  isClosed_eq := ClientPool.isClosed_eq_false_iff.mpr ⟨_, h.held_eq⟩
  held_eq := h.held_eq
  isClientClosed_eq entry _ := h.isClientClosed entry.2.id
  subscribing entry hentry hs := by
    obtain ⟨hurl, hconnect⟩ := h.connected entry hentry
    rw [hurl]
    exact exists_splits_of_connect hs hconnect
  asGiven entry hentry hs := by
    obtain ⟨hurl, hconnect⟩ := h.connected entry hentry
    have hprotocol := (Settings.connect_eq_ok_iff.mp hconnect).1
    rw [hurl]
    rw [Service.url, if_neg (by simp [hs])] at hprotocol ⊢
    exact ⟨hprotocol, rfl⟩
  app_eq := rfl

/-- When a connection fails, the caller has nothing that is open. -/
theorem Opened.givenUp {after : List Service} {e : ClientError}
    (h : Opened settings dial url services clients pool)
    (hclients : connectEach settings dial url [] .empty services = (.ok clients, pool))
    (hparts : Service.all = services ++ s :: after)
    (hs : settings.connect (dial s) (s.url url) = .error e) :
    GivenUp settings dial url s clients e pool.closeAll where
  failed_eq := hs
  services_eq := ⟨after, h.services_eq ▸ hparts⟩
  connected := ⟨pool, h.services_eq.symm ▸ hclients, fun entry _ => h.isClientClosed entry.2.id⟩
  isClosed_eq := by
    rw [ClientPool.closeAll_of_open h.held_eq]
    rfl
  isClientClosed_eq _ hentry := h.isClientClosed_closeAll hentry

theorem connect_of_connectEach (hurl : settings.url = some url)
    {result : Except ClientError (List (Service × Client))}
    (h : connectEach settings dial url [] .empty Service.all = (result, pool)) :
    connect settings dial =
      (result.map fun clients => { clients, pool, app := settings.app }, pool) := by
  rw [connect, Settings.address, hurl]
  simp only [h]

/-- **Connecting is all or nothing.** For any address, any settings besides, and any outcome of the
connections of the services: when the address has none of the schemes of a node, or some connection
fails, then connecting fails, as the first of these connections did, and every client that was
connected before is closed. Otherwise there is a client of each service, all of them open, held by
the closer, and reached by the address of the node, where only the scheme is changed for services
with subscriptions. -/
theorem connect_all_or_nothing (settings : Settings)
    (dial : Service → String → Except CallFailure Unit) {url : String}
    (hurl : settings.url = some url) :
    (Unconnectable settings dial url →
      ∃ failed clients e pool, connect settings dial = (.error e, pool) ∧
        GivenUp settings dial url failed clients e pool) ∧
      (¬Unconnectable settings dial url →
        ∃ m, connect settings dial = (.ok m, m.pool) ∧ AllOpen settings url m) := by
  rcases Checked.forall_ok_or_first_error
      (fun s => settings.connect (dial s) (s.url url)) Service.all with
    hall | ⟨before, failed, after, e, hparts, hbefore, hfailed⟩
  · have hconnectable := not_unconnectable_iff.mpr fun s => hall s (Service.mem_all s)
    obtain ⟨clients, pool, hclients, hopened⟩ := (Opened.nothing settings dial url).connectMany hall
    refine ⟨fun h => absurd h hconnectable, fun _ => ⟨_, ?_, hopened.allOpen⟩⟩
    exact connect_of_connectEach hurl hclients
  · have hunconnectable : Unconnectable settings dial url := Or.inr ⟨failed, e, hfailed⟩
    obtain ⟨clients, pool, hclients, hopened⟩ := (Opened.nothing settings dial url).connectMany hbefore
    refine ⟨fun _ => ⟨failed, clients, e, pool.closeAll, ?_, ?_⟩,
      fun h => absurd hunconnectable h⟩
    · exact connect_of_connectEach hurl (hparts ▸ connectEach_of_first_error hclients hfailed)
    · exact hopened.givenUp hclients hparts hfailed

end Connect

/-- The settings for a node at some address. -/
def settingsFor (url : String) : Settings :=
  { url := some url }

/-- A node that refuses the connections of some services. -/
def refuse (refused : List Service) (s : Service) (_ : String) : Except CallFailure Unit :=
  if s ∈ refused then .error .transport else .ok ()

/-- A node that refuses the third service and the fifth one, and a node that refuses none. -/
theorem connect_all_or_nothing_third :
    (settingsFor "http://a:1").url = some "http://a:1" ∧
      (∃ failed clients e pool,
        connect (settingsFor "http://a:1") (refuse [.header, .das]) = (.error e, pool) ∧
          GivenUp (settingsFor "http://a:1") (refuse [.header, .das]) "http://a:1" failed clients e
            pool) ∧
      ∃ m, connect (settingsFor "http://a:1") (refuse []) = (.ok m, m.pool) ∧
        AllOpen (settingsFor "http://a:1") "http://a:1" m := by
  refine ⟨rfl, (connect_all_or_nothing _ (refuse [.header, .das]) rfl).1 ?_,
    (connect_all_or_nothing _ (refuse []) rfl).2 ?_⟩
  · exact Or.inr ⟨.header, .ofFailure .transport, by decide +kernel⟩
  · refine not_unconnectable_iff.mpr fun s => ?_
    exact ⟨if s.hasSubscriptions then .websocket else .http, by cases s <;> decide +kernel⟩

/-- The clients of the two services before are closed, and no others were made. -/
example : connect (settingsFor "http://a:1") (refuse [.header, .das]) =
    (.error (.ofFailure .transport), { held := none, closed := [0, 1] }) := by decide +kernel

end MultiClient

end Availability

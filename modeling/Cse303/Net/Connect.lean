/-
  File:      Cse303/Net/Connect.lean
  Subject:   `connect_to_server` AND `create_server_socket` (net.cc): HOW A SOCKET COMES TO BE.

  What the calls answer is an input (`ConnectCalls`, `ListenCalls`), and every one of them may fail;
  what was called is kept in order. A descriptor that is returned stays open, and every other one
  that was made is closed: by hand in the one function, by a `ContextManager` in the other. The
  difference shows in what they print, since `close` may set `errno`.

  * `MakesOne` -- what a call of either function does to the descriptors of the process;
  * **`endpoints_meet_iff`** -- a client comes to the address the resolver gave, and to the server's
    port exactly if the two numbers are the same in the 16 bits of the network.
-/
import Cse303.Common.File
import Cse303.Lib.Inet
import Cse303.Lib.Ledger
import Cse303.Net.Socket

namespace Cse303

open CInt Inet

/-! ## 1. The library -/

/-- `h_errno`. -/
inductive HErrno where
  | hostNotFound
  | tryAgain
  | noRecovery
  | noData
  deriving DecidableEq, Repr

/-- `hstrerror`. -/
def hstrerror : HErrno → String
  | .hostNotFound => "Unknown host"
  | .tryAgain => "Host name lookup failure"
  | .noRecovery => "Unknown server error"
  | .noData => "No address associated with name"

/-- A port as it stands in a packet. -/
abbrev WirePort := Fin 65536

/-- `sockaddr_in`, of the family `AF_INET`. -/
structure SockaddrIn where
  sinAddr : InAddr
  sinPort : WirePort
  deriving DecidableEq, Repr

/-- `htons`: its parameter is a `uint16_t`. -/
def htons (x : Int) : WirePort := ⟨(x % 65536).toNat, by omega⟩

/-- The calls, with what those that make a socket answered. -/
inductive NetCall where
  | gethostbyname (name : String)
  | socket (r : Answer Nat)
  | setsockopt (sd : Nat)
  | bind (sd : Nat) (addr : SockaddrIn)
  | listen (sd : Nat) (backlog : Nat)
  | connect (sd : Nat) (addr : SockaddrIn)
  | close (sd : Nat)
  deriving DecidableEq

/-- What a call does to the descriptors of the process. -/
def NetCall.uses : NetCall → List (Use Nat)
  | .socket (.ok sd) => [.opened sd]
  | .close sd => [.closed sd]
  | _ => []

/-- A call of one of the two functions: what it returned and printed, and what it called. -/
structure NetRun where
  ret : Ret Int
  calls : List NetCall
  deriving DecidableEq

def NetRun.uses (r : NetRun) : List (Use Nat) := r.calls.flatMap NetCall.uses

/-! ## 2. The code -/

/-- What the calls of `connect_to_server` answer. -/
structure ConnectCalls where
  /-- `gethostbyname`: the first address of the host -/
  host : Except HErrno InAddr
  socket : Answer Nat
  connect : Answer Unit
  close : Answer Unit
  deriving DecidableEq

/-- `connect_to_server`. -/
def connectToServer (hostname : String) (port : Int) (c : ConnectCalls) : NetRun :=
  let calls : List NetCall := [.gethostbyname hostname]
  match c.host with
  | .error e => ⟨err (-1) [.text "connect_to_server():DNS error:", .text (hstrerror e)], calls⟩
  | .ok host =>
    let addr : SockaddrIn := ⟨Inet.addr (ntoa host), htons port⟩
    let calls := calls ++ [.socket c.socket]
    match c.socket with
    | .error e => ⟨err (-1) [.text "Error making client socket: ", msgFromErrno e], calls⟩
    | .ok sd =>
      let calls := calls ++ [.connect sd addr]
      match c.connect with
      | .ok () => ⟨.quiet sd, calls⟩
      | .error e =>
        -- errno is read behind the close
        let errno := errnoAfter e c.close
        ⟨err (-1) [.text "Error connecting socket to address: ", msgFromErrno errno],
          calls ++ [.close sd]⟩

/-- What the calls of `create_server_socket` answer. -/
structure ListenCalls where
  socket : Answer Nat
  setsockopt : Answer Unit
  bind : Answer Unit
  listen : Answer Unit
  deriving DecidableEq

/-- `create_server_socket`. The message of a `return` is made before the destructor runs. -/
def createServerSocket (port : Nat) (c : ListenCalls) : NetRun :=
  let calls : List NetCall := [.socket c.socket]
  match c.socket with
  | .error e => ⟨err (-1) [.text "Error making server socket: ", msgFromErrno e], calls⟩
  | .ok sd =>
    let cs : ContextManager (List NetCall) := { action := fun calls => calls ++ [.close sd] }
    let calls := calls ++ [.setsockopt sd]
    match c.setsockopt with
    | .error e =>
      ⟨err (-1) [.text "setsockopt(SO_REUSEADDR) failed: ", msgFromErrno e], cs.destruct calls⟩
    | .ok () =>
      let addr : SockaddrIn := ⟨.any, htons port⟩
      let calls := calls ++ [.bind sd addr]
      match c.bind with
      | .error e =>
        ⟨err (-1) [.text "Error binding socket to local address: ", msgFromErrno e],
          cs.destruct calls⟩
      | .ok () =>
        let calls := calls ++ [.listen sd 1024]
        match c.listen with
        | .error e =>
          ⟨err (-1) [.text "Error listening on socket: ", msgFromErrno e], cs.destruct calls⟩
        | .ok () =>
          let cs := cs.disable
          ⟨.quiet sd, cs.destruct calls⟩

/-! ## 3. One call, and the descriptors -/

/-- **What one call of either function does to the descriptors**: it makes one that stays open and
    returns it, makes one and closes it, or makes none. -/
inductive MakesOne (made : Answer Nat) (r : NetRun) : Prop where
  | returned {sd : Nat} (hm : made = .ok sd) (hret : r.ret.val = sd)
      (huses : r.uses = [.opened sd])
  | dropped {sd : Nat} (hm : made = .ok sd) (hret : r.ret.val = -1)
      (huses : r.uses = [.opened sd, .closed sd])
  | none (hret : r.ret.val = -1) (huses : r.uses = [])

theorem connectToServer_makes (hostname : String) (port : Int) (c : ConnectCalls) :
    MakesOne c.socket (connectToServer hostname port c) := by
  obtain ⟨host, socket, connect, close⟩ := c
  cases host with
  | error e => exact .none rfl rfl
  | ok host =>
      cases socket with
      | error e => exact .none rfl rfl
      | ok sd =>
          cases connect with
          | error e => exact .dropped rfl rfl rfl
          | ok u => exact .returned rfl rfl rfl

theorem createServerSocket_makes (port : Nat) (c : ListenCalls) :
    MakesOne c.socket (createServerSocket port c) := by
  obtain ⟨socket, setsockopt, bind, listen⟩ := c
  cases socket with
  | error e => exact .none rfl rfl
  | ok sd =>
      cases setsockopt with
      | error e => exact .dropped rfl rfl rfl
      | ok u =>
          cases bind with
          | error e => exact .dropped rfl rfl rfl
          | ok u =>
              cases listen with
              | error e => exact .dropped rfl rfl rfl
              | ok u => exact .returned rfl rfl rfl

/-! ## 4. Where the two ends are -/

/-- A port is the same for the network in an `int` and in a `size_t`. -/
theorem htons_toSize (x : Int) : htons (toSize x) = htons x := by
  unfold htons toSize
  rw [Fin.mk.injEq]
  omega

theorem htons_eq_iff (x y : Int) : htons x = htons y ↔ x % 65536 = y % 65536 := by
  unfold htons
  rw [Fin.mk.injEq]
  omega

/-- What `connect` is called with. -/
theorem connect_addr {hostname : String} {port : Int} {c : ConnectCalls} {sd : Nat}
    {addr : SockaddrIn} (h : .connect sd addr ∈ (connectToServer hostname port c).calls) :
    ∃ host, c.host = .ok host ∧ addr = ⟨host, htons port⟩ := by
  obtain ⟨host, socket, connect, close⟩ := c
  cases host with
  | error e => simp [connectToServer] at h
  | ok host =>
      cases socket with
      | error e => simp [connectToServer] at h
      | ok sd' =>
          have hcall : sd = sd' ∧ addr = ⟨host, htons port⟩ := by
            cases connect <;> simpa [connectToServer, addr_ntoa] using h
          exact ⟨host, rfl, hcall.2⟩

/-- What `bind` is called with. -/
theorem bind_addr {port : Nat} {c : ListenCalls} {sd : Nat} {addr : SockaddrIn}
    (h : .bind sd addr ∈ (createServerSocket port c).calls) : addr = ⟨.any, htons port⟩ := by
  obtain ⟨socket, setsockopt, bind, listen⟩ := c
  cases socket with
  | error e => simp [createServerSocket] at h
  | ok sd' =>
      cases setsockopt with
      | error e => simp [createServerSocket, ContextManager.destruct] at h
      | ok u =>
          have hcall : sd = sd' ∧ addr = ⟨.any, htons port⟩ := by
            cases bind with
            | error e => simpa [createServerSocket, ContextManager.destruct] using h
            | ok u =>
                cases listen <;>
                  simpa [createServerSocket, ContextManager.destruct, ContextManager.disable]
                    using h
          exact hcall.2

/-- **WHERE CLIENT AND SERVER ARE**, for a client started with the port number `p` and a server with
    `q`: the client connects to the address that the resolver gave, whatever that is, and the server
    listens on all of its own; and the ports are the same exactly if the numbers are, as far as 16
    bits go. -/
theorem endpoints_meet_iff {hostname : String} {p q : Int} {c : ConnectCalls} {c' : ListenCalls}
    {sd sd' : Nat} {addr addr' : SockaddrIn}
    (h : .connect sd addr ∈ (connectToServer hostname p c).calls)
    (h' : .bind sd' addr' ∈ (createServerSocket (toSize q) c').calls) :
    c.host = .ok addr.sinAddr ∧ addr'.sinAddr = .any ∧
      (addr.sinPort = addr'.sinPort ↔ p % 65536 = q % 65536) := by
  obtain ⟨host, hhost, rfl⟩ := connect_addr h
  obtain rfl := bind_addr h'
  refine ⟨hhost, rfl, ?_⟩
  rw [htons_toSize]
  exact htons_eq_iff p q

/-- The statement for a client of port 80 and a server started with 65616. -/
theorem endpoints_meet_iff_wrapped :
    let c : ConnectCalls := ⟨.ok ⟨255, 255, 255, 255⟩, .ok 3, .ok (), .ok ()⟩
    c.host = .ok ⟨255, 255, 255, 255⟩ ∧ InAddr.any = .any ∧
      (htons 80 = htons 65616 ↔ (80 : Int) % 65536 = 65616 % 65536) := by
  intro c
  have hsize : toSize 65616 = 65616 := toSize_natCast (n := 65616) (by omega)
  have hconnect : .connect 3 ⟨⟨255, 255, 255, 255⟩, htons 80⟩ ∈
      (connectToServer "localhost" 80 c).calls := by
    simp [connectToServer, addr_ntoa, c]
  have hbind : .bind 3 ⟨.any, htons 65616⟩ ∈
      (createServerSocket (toSize 65616) ⟨.ok 3, .ok (), .ok (), .ok ()⟩).calls := by
    rw [hsize]
    decide
  exact endpoints_meet_iff hconnect hbind

end Cse303

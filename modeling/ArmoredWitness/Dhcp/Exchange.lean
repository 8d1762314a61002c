import ArmoredWitness.Dhcp.Times
import ArmoredWitness.Lib.Transition
import ArmoredWitness.Net.Subnet

/-! `acquire` sends a DISCOVER and waits for an OFFER, if the client has no lease, and then
sends a REQUEST and waits for an ACK. Both messages are sent again whenever the delay of the
retransmission has passed. What the network, the stack and the clock do is an input of each
step; the messages sent and the counters incremented are logged. -/
namespace ArmoredWitness.Dhcp
open Lib Lib.Tlv Lib.Transition Net

inductive ClientState
  | initSelecting
  | bound
  | renewing
  | rebinding
  deriving DecidableEq

/-- The part of the client's state that an exchange reads and writes. -/
structure Info where
  addr : AddressWithPrefix
  server : List UInt8
  state : ClientState
  oldAddr : AddressWithPrefix
  deriving DecidableEq

/-- What a client is created with, and what it calls of the stack. -/
structure Client where
  tcpip : Tcpip
  clientID : List UInt8
  hostname : List UInt8
  linkAddr : List UInt8
  acquisition : ℤ
  backoff : ℤ
  retransmission : ℤ

/-- The counters. -/
inductive Counter
  | initAcquire
  | renewAcquire
  | rebindAcquire
  | sendDiscovers
  | recvOffers
  | sendRequests
  | recvAcks
  | recvNaks
  | sendDiscoverErrors
  | sendRequestErrors
  | recvOfferErrors
  | recvOfferUnexpectedType
  | recvOfferOptsDecodeErrors
  | recvOfferTimeout
  | recvOfferAcquisitionTimeout
  | recvAckErrors
  | recvNakErrors
  | recvAckOptsDecodeErrors
  | recvAckAddrErrors
  | recvAckUnexpectedType
  | recvAckTimeout
  | recvAckAcquisitionTimeout
  deriving DecidableEq

def ipv4Broadcast : List UInt8 := [255,255,255,255]

/-- A datagram to the server port of an address. -/
structure Datagram where
  dst : List UInt8
  data : Hdr
  deriving DecidableEq

/-- The errors of `acquire`. -/
inductive AcquireError
  | endpoint
  | sendDiscover
  | recvOffer (e : RecvError)
  | decodeOffer (e : Config.DecodeError)
  | sendRequest
  | recvAck (e : RecvError)
  | decodeAck (e : Config.DecodeError)
  | unexpectedAddress (addr expected : AddressWithPrefix)
  | nak (msg : List UInt8)
  | emptyNak
  deriving DecidableEq

/-- The panics of `acquire`: those of Go, and the calls of `panic`. -/
inductive Crash
  | runtime (p : Panic)
  | divideByZero
  | unknownState
  | addProtocolAddress
  | removeAddress
  | wouldBlock
  | msgType (e : MsgTypeError)
  deriving DecidableEq

/-- The two loops of `acquire`, which send a message until an answer comes. -/
inductive Leg
  | discover
  | request
  deriving DecidableEq

namespace Leg

def sent : Leg → Counter
  | .discover => .sendDiscovers
  | .request => .sendRequests

def sendErrors : Leg → Counter
  | .discover => .sendDiscoverErrors
  | .request => .sendRequestErrors

def recvErrors : Leg → Counter
  | .discover => .recvOfferErrors
  | .request => .recvAckErrors

def timeout : Leg → Counter
  | .discover => .recvOfferTimeout
  | .request => .recvAckTimeout

def acquisitionTimeout : Leg → Counter
  | .discover => .recvOfferAcquisitionTimeout
  | .request => .recvAckAcquisitionTimeout

def sendError : Leg → AcquireError
  | .discover => .sendDiscover
  | .request => .sendRequest

def recvError : Leg → RecvError → AcquireError
  | .discover => .recvOffer
  | .request => .recvAck

end Leg

/-- Where an exchange is. `wait` is the delay after which message `i` is sent again. -/
inductive Phase
  | opening
  | sending (l : Leg) (i : ℕ)
  | receiving (l : Leg) (i : ℕ) (wait : ℤ)
  | leaving (r : Except AcquireError Config)
  | returned (r : Except AcquireError Config)
  | panicked (why : Crash)

structure Exchange where
  info : Info
  xid : List.Vector UInt8 4
  requestedAddr : AddressWithPrefix
  phase : Phase
  sent : List Datagram
  stats : List Counter

/-- The answers of the stack when the endpoints are set up. -/
inductive Opened
  | ok
  | addressRefused
  | failed

/-- The answers of the stack to a write. -/
inductive Written
  | ok
  | wouldBlock
  | failed

namespace Exchange

/-- What can happen next. A random number comes with each write: it is drawn for the delay
that follows. -/
inductive Event
  | opened (r : Opened)
  | wrote (r : Written) (rnd : Fin (2*10^9+1))
  | received (h : Hdr)
  | readFails
  | timeout
  | done
  | removed (ok : Bool)

/-- The transaction number is random; it is drawn in advance. -/
def start (info : Info) (xid : List.Vector UInt8 4) : Exchange := ⟨info,xid,info.addr,.opening,[],[]⟩

def commonOpts (c : Client) : List Field :=
  [⟨optParamReq,[1,3,15,6]⟩] ++
  (if c.clientID ≠ [] then [⟨optClientID,c.clientID⟩] else []) ++
  (if c.hostname ≠ [] then [⟨optHostname,c.hostname⟩] else [])

/-- The options of a DISCOVER, which asks for the last address again. -/
def discOpts (c : Client) (requestedAddr : AddressWithPrefix) : List Field :=
  [⟨optDHCPMsgType,[MsgType.discover.toByte]⟩] ++ commonOpts c ++
  (if requestedAddr.address.length ≠ 0 then [⟨optReqIPAddr,requestedAddr.address⟩] else [])

/-- The options of a REQUEST. -/
def reqOpts (c : Client) (info : Info) (requestedAddr : AddressWithPrefix) : List Field :=
  [⟨optDHCPMsgType,[MsgType.request.toByte]⟩] ++ commonOpts c ++
  (if info.state = .initSelecting then
    [⟨optDHCPServer,info.server⟩,⟨optReqIPAddr,requestedAddr.address⟩] else [])

/-- Where the messages go. The server is only replaced while the client broadcasts. -/
def writeTo (info : Info) : List UInt8 := if info.state = .renewing then info.server else ipv4Broadcast

def count (s : Exchange) (k : Counter) : Exchange := {s with stats := s.stats ++ [k]}

def goto (s : Exchange) (p : Phase) : Exchange := {s with phase := p}

def fail (s : Exchange) (k : Counter) (e : AcquireError) : Exchange := (s.count k).goto (.leaving (.error e))

/-- The options of the message of a leg. -/
def opts (c : Client) (s : Exchange) : Leg → List Field
  | .discover => discOpts c s.info.addr
  | .request => reqOpts c s.info s.requestedAddr

/-- Whether the reply is to be broadcast. It always is for a DISCOVER, which is only sent
while there is no address to reply to. -/
def broadcast (s : Exchange) : Leg → Bool
  | .discover => true
  | .request => s.info.state = .initSelecting

/-- Whether the message carries the address of the client. -/
def ciaddr (s : Exchange) : Leg → Bool
  | .discover => false
  | .request => s.info.state ≠ .initSelecting

/-- Send message `i` of a leg and start to wait. -/
def send (c : Client) (s : Exchange) (l : Leg) (i : ℕ) (r : Written) (rnd : Fin (2*10^9+1)) : Exchange :=
  match packet (ε := Empty) c.linkAddr s.info.addr.address (s.opts c l) s.xid (s.broadcast l) (s.ciaddr l) with
  | .panic p => s.goto (.panicked (.runtime p))
  | .error x => x.elim
  | .ok h =>
    match dhcpMsgType (s.opts c l) with
    | .error x => s.goto (.panicked (.msgType x))
    | .ok _ =>
      match r with
      | .wouldBlock => s.goto (.panicked .wouldBlock)
      | .failed => s.fail l.sendErrors l.sendError
      | .ok =>
        let s := ({s with sent := s.sent ++ [⟨writeTo s.info,h⟩]} : Exchange).count l.sent
        match exponentialBackoff c.retransmission rnd i with
        | none => s.goto (.panicked .divideByZero)
        | some d => s.goto (.receiving l i d)

/-- The offer of an address is selected. An offer without a mask is taken to mean the mask
of the address the client has. -/
def select (c : Client) (s : Exchange) (cfg : Config) (addr : List UInt8) : Exchange :=
  let mask := if cfg.subnetMask.length = 0 then (c.tcpip.subnet s.info.addr).mask else cfg.subnetMask
  {s with
    info := {s.info with server := cfg.serverAddress}
    requestedAddr := ⟨addr,maskSize mask⟩
    phase := .sending .request 0}

/-- The requested address is acquired. -/
def accept (s : Exchange) (cfg : Config) : Exchange :=
  {s with info := {s.info with addr := s.requestedAddr}, phase := .leaving (.ok cfg)}

/-- A message of this exchange arrives while an OFFER is awaited. The first offer that can
be decoded is selected. -/
def onOffer (c : Client) (s : Exchange) (r : Reply) : Exchange :=
  if r.typ ≠ .offer then s.count .recvOfferUnexpectedType
  else
    let s := s.count .recvOffers
    match Config.decode r.opts with
    | .error e => s.fail .recvOfferOptsDecodeErrors (.decodeOffer e)
    | .panic p => s.goto (.panicked (.runtime p))
    | .ok cfg => s.select c cfg r.addr

/-- A message of this exchange arrives while an ACK is awaited. -/
def onAck (s : Exchange) (r : Reply) : Exchange :=
  if r.typ = .ack then
    match Config.decode r.opts with
    | .error e => s.fail .recvAckOptsDecodeErrors (.decodeAck e)
    | .panic p => s.goto (.panicked (.runtime p))
    | .ok cfg =>
      let addr : AddressWithPrefix := ⟨r.addr,maskSize cfg.subnetMask⟩
      if addr ≠ s.requestedAddr then s.fail .recvAckAddrErrors (.unexpectedAddress addr s.requestedAddr)
      else (s.count .recvAcks).accept cfg
  else if r.typ = .nak then
    let msg := message r.opts
    if msg.length ≠ 0 then s.fail .recvNakErrors (.nak msg)
    else s.fail .recvNaks .emptyNak
  else s.count .recvAckUnexpectedType

/-- A datagram is read. -/
def receive (c : Client) (s : Exchange) (l : Leg) (h : Hdr) : Exchange :=
  match parse s.xid h with
  | .ok none => s
  | .ok (some r) =>
    match l with
    | .discover => s.onOffer c r
    | .request => s.onAck r
  | .error x => s.fail l.recvErrors (l.recvError x)
  | .panic p => s.goto (.panicked (.runtime p))

/-- One step of `acquire`. A delay may be over at any time here, and an attempt may outlast
its deadline: the steps of the code are among these, and what holds of all runs holds of
those of the code. -/
def step (c : Client) (s : Exchange) (e : Event) : Option Exchange :=
  match s.phase, e with
  | .opening, .opened r =>
    if s.info.state = .bound then some (s.goto (.panicked .unknownState))
    else match r with
      | .ok => some (s.goto (.sending (if s.info.state = .initSelecting then .discover else .request) 0))
      | .addressRefused =>
        if s.info.state = .initSelecting then some (s.goto (.panicked .addProtocolAddress)) else none
      | .failed => some (s.goto (.leaving (.error .endpoint)))
  | .sending l i, .wrote r rnd => some (s.send c l i r rnd)
  | .receiving l _ _, .received h => some (s.receive c l h)
  | .receiving l _ _, .readFails => some (s.fail l.recvErrors (l.recvError .read))
  | .receiving l _ _, .done => some (s.fail l.acquisitionTimeout (l.recvError .canceled))
  | .receiving l i _, .timeout => some ((s.count l.timeout).goto (.sending l (i+1)))
  | .leaving r, .removed ok =>
    if s.info.state = .initSelecting ∧ ok = false then some (s.goto (.panicked .removeAddress))
    else some (s.goto (.returned r))
  | _, _ => none

section Steps
variable {c : Client} {s t : Exchange}

@[simp] lemma count_info (k : Counter) : (s.count k).info = s.info := rfl
@[simp] lemma count_xid (k : Counter) : (s.count k).xid = s.xid := rfl
@[simp] lemma count_requestedAddr (k : Counter) : (s.count k).requestedAddr = s.requestedAddr := rfl
@[simp] lemma count_phase (k : Counter) : (s.count k).phase = s.phase := rfl
@[simp] lemma count_sent (k : Counter) : (s.count k).sent = s.sent := rfl
@[simp] lemma count_stats (k : Counter) : (s.count k).stats = s.stats ++ [k] := rfl
@[simp] lemma goto_info (p : Phase) : (s.goto p).info = s.info := rfl
@[simp] lemma goto_xid (p : Phase) : (s.goto p).xid = s.xid := rfl
@[simp] lemma goto_requestedAddr (p : Phase) : (s.goto p).requestedAddr = s.requestedAddr := rfl
@[simp] lemma goto_phase (p : Phase) : (s.goto p).phase = p := rfl
@[simp] lemma goto_sent (p : Phase) : (s.goto p).sent = s.sent := rfl
@[simp] lemma goto_stats (p : Phase) : (s.goto p).stats = s.stats := rfl

/-- The message of a leg. -/
def datagram (c : Client) (s : Exchange) (l : Leg) : Datagram :=
  ⟨writeTo s.info,(Header.request c.linkAddr s.info.addr.address s.xid (s.broadcast l) (s.ciaddr l)).on
    (bytes (s.opts c l) ++ [255,0])⟩

/-- What sending can do: building the message never fails, and its type is valid. -/
inductive Sends (c : Client) (s : Exchange) (l : Leg) (i : ℕ) : Written → Fin (2*10^9+1) → Exchange → Prop
  | ok {rnd d} (hd : exponentialBackoff c.retransmission rnd i = some d) :
      Sends c s l i .ok rnd
        ((({s with sent := s.sent ++ [s.datagram c l]} : Exchange).count l.sent).goto (.receiving l i d))
  | divide {rnd} (hd : exponentialBackoff c.retransmission rnd i = none) :
      Sends c s l i .ok rnd
        ((({s with sent := s.sent ++ [s.datagram c l]} : Exchange).count l.sent).goto (.panicked .divideByZero))
  | blocked {rnd} : Sends c s l i .wouldBlock rnd (s.goto (.panicked .wouldBlock))
  | failed {rnd} : Sends c s l i .failed rnd (s.fail l.sendErrors l.sendError)

lemma dhcpMsgType_opts (l : Leg) : ∃ typ, dhcpMsgType (s.opts c l) = .ok typ := by
  cases l with
  | discover => exact ⟨.discover,rfl⟩
  | request => exact ⟨.request,rfl⟩

lemma send_inv (l : Leg) (i : ℕ) (r : Written) (rnd : Fin (2*10^9+1)) :
    Sends c s l i r rnd (s.send c l i r rnd) := by
  obtain ⟨typ,htyp⟩ := dhcpMsgType_opts (c := c) (s := s) l
  unfold send
  rw [packet_eq,htyp]
  cases r with
  | ok =>
    cases hd : exponentialBackoff c.retransmission rnd i with
    | some d => exact .ok hd
    | none => exact .divide hd
  | wouldBlock => exact .blocked
  | failed => exact .failed

/-- What a reply can do. -/
inductive Replies (c : Client) (s : Exchange) : Leg → Reply → Exchange → Prop
  | otherOffer {r} (ht : r.typ ≠ .offer) : Replies c s .discover r (s.count .recvOfferUnexpectedType)
  | badOffer {r e} (ht : r.typ = .offer) (hd : Config.decode r.opts = .error e) :
      Replies c s .discover r ((s.count .recvOffers).fail .recvOfferOptsDecodeErrors (.decodeOffer e))
  | offer {r cfg} (ht : r.typ = .offer) (hd : Config.decode r.opts = .ok cfg) :
      Replies c s .discover r ((s.count .recvOffers).select c cfg r.addr)
  | otherAck {r} (ht : r.typ ≠ .ack) (hn : r.typ ≠ .nak) : Replies c s .request r (s.count .recvAckUnexpectedType)
  | badAck {r e} (ht : r.typ = .ack) (hd : Config.decode r.opts = .error e) :
      Replies c s .request r (s.fail .recvAckOptsDecodeErrors (.decodeAck e))
  | addrAck {r cfg} (ht : r.typ = .ack) (hd : Config.decode r.opts = .ok cfg)
      (ha : (⟨r.addr,maskSize cfg.subnetMask⟩ : AddressWithPrefix) ≠ s.requestedAddr) :
      Replies c s .request r
        (s.fail .recvAckAddrErrors (.unexpectedAddress ⟨r.addr,maskSize cfg.subnetMask⟩ s.requestedAddr))
  | ack {r cfg} (ht : r.typ = .ack) (hd : Config.decode r.opts = .ok cfg)
      (ha : s.requestedAddr = ⟨r.addr,maskSize cfg.subnetMask⟩) :
      Replies c s .request r ((s.count .recvAcks).accept cfg)
  | nak {r} (ht : r.typ = .nak) (hm : message r.opts ≠ []) :
      Replies c s .request r (s.fail .recvNakErrors (.nak (message r.opts)))
  | emptyNak {r} (ht : r.typ = .nak) (hm : message r.opts = []) :
      Replies c s .request r (s.fail .recvNaks .emptyNak)

lemma onOffer_inv (r : Reply) : Replies c s .discover r (s.onOffer c r) := by
  unfold onOffer
  split
  · exact .otherOffer ‹_›
  · rename_i ht
    dsimp only
    split
    · exact .badOffer (not_not.mp ht) ‹_›
    · exact absurd ‹_› (Config.decode_ne_panic _ _)
    · exact .offer (not_not.mp ht) ‹_›

lemma onAck_inv (r : Reply) : Replies c s .request r (s.onAck r) := by
  unfold onAck
  split
  · rename_i ht
    split
    · exact .badAck ht ‹_›
    · exact absurd ‹_› (Config.decode_ne_panic _ _)
    · rename_i cfg hd
      dsimp only
      split
      · exact .addrAck ht hd ‹_›
      · rename_i ha
        exact .ack ht hd (not_not.mp ha).symm
  · rename_i ht
    split
    · rename_i hn
      dsimp only
      split
      · rename_i hm
        exact .nak hn (by simpa using hm)
      · rename_i hm
        exact .emptyNak hn (by simpa using hm)
    · exact .otherAck ht ‹_›

/-- What one step does, by where the exchange is and what happens. -/
inductive Step (c : Client) (s : Exchange) : Event → Exchange → Prop
  | unknown {r} (hp : s.phase = .opening) (hs : s.info.state = .bound) :
      Step c s (.opened r) (s.goto (.panicked .unknownState))
  | opened (hp : s.phase = .opening) (hs : s.info.state ≠ .bound) :
      Step c s (.opened .ok)
        (s.goto (.sending (if s.info.state = .initSelecting then .discover else .request) 0))
  | refused (hp : s.phase = .opening) (hs : s.info.state = .initSelecting) :
      Step c s (.opened .addressRefused) (s.goto (.panicked .addProtocolAddress))
  | unopened (hp : s.phase = .opening) (hs : s.info.state ≠ .bound) :
      Step c s (.opened .failed) (s.goto (.leaving (.error .endpoint)))
  | wrote {l i r rnd t} (hp : s.phase = .sending l i) (h : Sends c s l i r rnd t) : Step c s (.wrote r rnd) t
  | foreign {l i w h} (hp : s.phase = .receiving l i w) (hx : parse s.xid h = .ok none) :
      Step c s (.received h) s
  | malformed {l i w h x} (hp : s.phase = .receiving l i w) (hx : parse s.xid h = .error x) :
      Step c s (.received h) (s.fail l.recvErrors (l.recvError x))
  | reply {l i w h r t} (hp : s.phase = .receiving l i w) (hx : parse s.xid h = .ok (some r))
      (ht : Replies c s l r t) : Step c s (.received h) t
  | readFails {l i w} (hp : s.phase = .receiving l i w) :
      Step c s .readFails (s.fail l.recvErrors (l.recvError .read))
  | done {l i w} (hp : s.phase = .receiving l i w) :
      Step c s .done (s.fail l.acquisitionTimeout (l.recvError .canceled))
  | timeout {l i w} (hp : s.phase = .receiving l i w) :
      Step c s .timeout ((s.count l.timeout).goto (.sending l (i+1)))
  | stuck {r} (hp : s.phase = .leaving r) (hs : s.info.state = .initSelecting) :
      Step c s (.removed false) (s.goto (.panicked .removeAddress))
  | returned {r ok} (hp : s.phase = .leaving r) : Step c s (.removed ok) (s.goto (.returned r))

lemma receive_inv {l : Leg} {i : ℕ} {w : ℤ} (hp : s.phase = .receiving l i w) (h : Hdr) :
    Step c s (.received h) (s.receive c l h) := by
  unfold receive
  split
  · exact .foreign hp ‹_›
  · rename_i r hx
    cases l with
    | discover => exact .reply hp hx (onOffer_inv r)
    | request => exact .reply hp hx (onAck_inv r)
  · exact .malformed hp ‹_›
  · exact absurd ‹_› (parse_ne_panic _ _ _)

lemma step_inv {e : Event} (ht : step c s e = some t) : Step c s e t := by
  unfold step at ht
  split at ht
  case h_1 r hp =>
    split at ht
    · cases ht
      exact .unknown hp ‹_›
    · rename_i hs
      split at ht
      · cases ht
        exact .opened hp hs
      · split at ht
        · cases ht
          exact .refused hp ‹_›
        · cases ht
      · cases ht
        exact .unopened hp hs
  case h_2 l i r rnd hp =>
    cases ht
    exact .wrote hp (send_inv l i r rnd)
  case h_3 l i w h hp =>
    cases ht
    exact receive_inv hp h
  case h_4 l i w hp =>
    cases ht
    exact .readFails hp
  case h_5 l i w hp =>
    cases ht
    exact .done hp
  case h_6 l i w hp =>
    cases ht
    exact .timeout hp
  case h_7 r ok hp =>
    split at ht
    · rename_i h
      cases ht
      obtain ⟨hs,rfl⟩ := h
      exact .stuck hp hs
    · cases ht
      exact .returned hp
  case h_8 => cases ht

end Steps

end Exchange

end ArmoredWitness.Dhcp

import ArmoredWitness.Dhcp.Exchange

/-! Every run of an exchange starts from what the client knows. The lemmas below say what
the steps keep of it, and the theorems what follows for a whole run. -/
namespace ArmoredWitness.Dhcp
open Lib Lib.Tlv Lib.Transition Net

namespace Phase

/-- The leg an exchange is on. -/
def leg : Phase → Option Leg
  | .sending l _ | .receiving l _ _ => some l
  | _ => none

/-- The result, once it is known. -/
def result : Phase → Option (Except AcquireError Config)
  | .leaving r | .returned r => some r
  | _ => none

/-- Whether the address may have been acquired. -/
def acquired : Phase → Bool
  | .leaving (.ok _) | .returned (.ok _) | .panicked _ => true
  | _ => false

end Phase

/-- The client that the applet runs. -/
def newClient (tcpip : Tcpip) (clientID hostname linkAddr : List UInt8) : Client :=
  ⟨tcpip,clientID,hostname,linkAddr,30*second,second,second⟩

/-- What a client knows when it is created. -/
def newInfo : Info := ⟨noAddress,[],.initSelecting,noAddress⟩

section Server

/-- The options of a server that leases an address for an hour. -/
def leaseOpts (typ : MsgType) : List Field :=
  [⟨optDHCPMsgType,[typ.toByte]⟩,⟨optDHCPServer,[10,0,0,254]⟩,⟨optSubnetMask,[255,255,255,0]⟩,
    ⟨optLeaseTime,[0,0,14,16]⟩]

def leaseCfg : Config := ⟨[10,0,0,254],[255,255,255,0],[],[],3600,0,0⟩

def leaseMsg (typ : MsgType) (xid : List.Vector UInt8 4) : Hdr :=
  (Header.reply xid ⟨leaseA.address,rfl⟩).on (bytes (leaseOpts typ) ++ [255])

lemma parse_leaseMsg {typ : MsgType} (h : typ = .offer ∨ typ = .ack) (xid : List.Vector UInt8 4) :
    parse xid (leaseMsg typ xid) = .ok (some ⟨leaseA.address,leaseOpts typ,typ⟩) := by
  apply Header.parse_reply
  · simp
  · refine stream_bytes (by decide) ?_ []
    rintro opt hopt
    simp only [leaseOpts,List.mem_cons,List.not_mem_nil,or_false] at hopt
    rcases hopt with rfl | rfl | rfl | rfl <;> exact carries_of (by decide) (by simp)
  · rcases h with rfl | rfl <;> rfl

lemma decode_leaseOpts {typ : MsgType} (h : typ = .offer ∨ typ = .ack) :
    Config.decode (leaseOpts typ) = .ok leaseCfg := by
  rcases h with rfl | rfl <;> decide

end Server

namespace Exchange
variable {c : Client} {info : Info} {xid : List.Vector UInt8 4} {s t : Exchange}

/-- What the steps keep of what the client knew. -/
structure Kept (info : Info) (xid : List.Vector UInt8 4) (s : Exchange) : Prop where
  xid : s.xid = xid
  state : s.info.state = info.state
  oldAddr : s.info.oldAddr = info.oldAddr
  addr : s.phase.acquired = false → s.info.addr = info.addr
  acquired : ∀ cfg, s.phase.result = some (.ok cfg) → s.info.addr = s.requestedAddr
  leg : s.phase.leg = some .discover → info.state = .initSelecting
  server : info.state ≠ .initSelecting → s.info.server = info.server
  requested : info.state ≠ .initSelecting → s.requestedAddr = info.addr

lemma kept_start (info : Info) (xid : List.Vector UInt8 4) : Kept info xid (start info xid) where
  xid := rfl
  state := rfl
  oldAddr := rfl
  addr _ := rfl
  acquired := by
    intro cfg h
    cases h
  leg := by
    intro h
    cases h
  server _ := rfl
  requested _ := rfl

/-- Most steps only move the exchange on: no address is acquired, and a leg is not begun. -/
lemma Kept.move (h : Kept info xid s) (hi : t.info = s.info) (hx : t.xid = s.xid)
    (hr : t.requestedAddr = s.requestedAddr) (hacq : t.phase.acquired = false → s.phase.acquired = false)
    (hres : ∀ cfg, t.phase.result = some (.ok cfg) → s.phase.result = some (.ok cfg))
    (hleg : t.phase.leg = some .discover → info.state = .initSelecting) : Kept info xid t where
  xid := hx.trans h.xid
  state := by rw [hi,h.state]
  oldAddr := by rw [hi,h.oldAddr]
  addr ha := by rw [hi,h.addr (hacq ha)]
  acquired cfg hcfg := by rw [hi,hr,h.acquired cfg (hres cfg hcfg)]
  leg := hleg
  server hs := by rw [hi,h.server hs]
  requested hs := by rw [hr,h.requested hs]

/-- So does every step that ends with an error, and every panic. -/
lemma Kept.fail (h : Kept info xid s) (hp : s.phase.acquired = false) (k : Counter) (e : AcquireError) :
    Kept info xid (s.fail k e) := by
  refine h.move rfl rfl rfl (fun _ => hp) ?_ ?_
  · intro cfg hcfg
    cases hcfg
  · intro hl
    cases hl

lemma Kept.panic (h : Kept info xid s) (why : Crash) : Kept info xid (s.goto (.panicked why)) := by
  refine h.move rfl rfl rfl (fun ha => by cases ha) ?_ ?_
  · intro cfg hcfg
    cases hcfg
  · intro hl
    cases hl

lemma Kept.count (h : Kept info xid s) (k : Counter) : Kept info xid (s.count k) :=
  h.move rfl rfl rfl id (fun _ => id) h.leg

lemma Kept.sends (h : Kept info xid s) {l : Leg} {i : ℕ} {r : Written} {rnd : Fin (2*10^9+1)}
    (hp : s.phase = .sending l i) (ht : Sends c s l i r rnd t) : Kept info xid t := by
  have hacq : s.phase.acquired = false := by rw [hp]; rfl
  cases ht with
  | ok hd =>
    refine h.move rfl rfl rfl (fun _ => hacq) ?_ ?_
    · intro cfg hcfg
      cases hcfg
    · intro hl
      apply h.leg
      rw [hp]
      exact hl
  | divide hd =>
    have hsent : Kept info xid ({s with sent := s.sent ++ [s.datagram c l]} : Exchange) :=
      h.move rfl rfl rfl id (fun _ => id) h.leg
    exact (hsent.count _).panic _
  | blocked => exact h.panic _
  | failed => exact h.fail hacq _ _

/-- Only an OFFER replaces the server and the requested address, and it is only awaited in
the initial state. -/
lemma Kept.replies (h : Kept info xid s) {l : Leg} {i : ℕ} {w : ℤ} {r : Reply}
    (hp : s.phase = .receiving l i w) (ht : Replies c s l r t) : Kept info xid t := by
  have hacq : s.phase.acquired = false := by rw [hp]; rfl
  cases ht with
  | otherOffer => exact h.count _
  | badOffer => exact (h.count _).fail hacq _ _
  | @offer r cfg htyp hd =>
    have hinit := h.leg (by rw [hp]; rfl)
    refine ⟨h.xid,h.state,h.oldAddr,fun _ => h.addr hacq,?_,fun _ => hinit,?_,?_⟩
    · intro cfg' hcfg
      cases hcfg
    · intro hs
      exact absurd hinit hs
    · intro hs
      exact absurd hinit hs
  | otherAck => exact h.count _
  | badAck => exact h.fail hacq _ _
  | addrAck => exact h.fail hacq _ _
  | @ack r cfg htyp hd ha =>
    refine ⟨h.xid,h.state,h.oldAddr,?_,fun _ _ => rfl,?_,h.server,h.requested⟩
    · intro ha
      cases ha
    · intro hl
      cases hl
  | nak => exact h.fail hacq _ _
  | emptyNak => exact h.fail hacq _ _

theorem Kept.step (h : Kept info xid s) {e : Event} (ht : step c s e = some t) : Kept info xid t := by
  cases step_inv ht with
  | unknown => exact h.panic _
  | opened hp hs =>
    refine h.move rfl rfl rfl (fun _ => by rw [hp]; rfl) ?_ ?_
    · intro cfg hcfg
      cases hcfg
    · intro hl
      by_cases hi : s.info.state = .initSelecting
      · rw [← h.state,hi]
      · rw [goto_phase,if_neg hi] at hl
        cases hl
  | refused => exact h.panic _
  | unopened hp =>
    refine h.move rfl rfl rfl (fun _ => by rw [hp]; rfl) ?_ ?_
    · intro cfg hcfg
      cases hcfg
    · intro hl
      cases hl
  | wrote hp hsend => exact h.sends hp hsend
  | foreign => exact h
  | malformed hp => exact h.fail (by rw [hp]; rfl) _ _
  | reply hp _ hrep => exact h.replies hp hrep
  | readFails hp => exact h.fail (by rw [hp]; rfl) _ _
  | done hp => exact h.fail (by rw [hp]; rfl) _ _
  | timeout hp =>
    refine h.move rfl rfl rfl (fun _ => by rw [hp]; rfl) ?_ ?_
    · intro cfg hcfg
      cases hcfg
    · intro hl
      apply h.leg
      rw [hp]
      exact hl
  | stuck => exact h.panic _
  | @returned r ok hp =>
    refine h.move rfl rfl rfl ?_ ?_ ?_
    · rw [hp]
      cases r <;> exact id
    · rw [hp]
      exact fun _ => id
    · intro hl
      cases hl

section Answered
variable {l : Leg} {i : ℕ}

lemma step_opened (hp : s.phase = .opening) (hs : s.info.state ≠ .bound) : step c s (.opened .ok) =
    some (s.goto (.sending (if s.info.state = .initSelecting then .discover else .request) 0)) := by
  simp only [step,hp,if_neg hs]

/-- Where an exchange has got to: what it knows, and how many messages it has sent. -/
structure At (info : Info) (xid : List.Vector UInt8 4) (requestedAddr : AddressWithPrefix) (n : ℕ) (s : Exchange) :
    Prop where
  info : s.info = info
  xid : s.xid = xid
  requestedAddr : s.requestedAddr = requestedAddr
  sent : s.sent.length = n

variable {requestedAddr : AddressWithPrefix} {n : ℕ}

lemma step_sending (hc : c.retransmission ≠ 0) (h : At info xid requestedAddr n s) (hp : s.phase = .sending l i)
    (rnd : Fin (2*10^9+1)) : ∃ t d, step c s (.wrote .ok rnd) = some t ∧ At info xid requestedAddr (n+1) t ∧
      t.phase = .receiving l i d := by
  obtain ⟨d,hd⟩ : ∃ d, exponentialBackoff c.retransmission rnd i = some d := ⟨_,if_neg hc⟩
  obtain ⟨typ,htyp⟩ := dhcpMsgType_opts (c := c) (s := s) l
  refine ⟨(({s with sent := s.sent ++ [s.datagram c l]} : Exchange).count l.sent).goto (.receiving l i d),d,?_,
    ⟨h.info,h.xid,h.requestedAddr,?_⟩,rfl⟩
  · simp only [step,hp,send,packet_eq,htyp,hd,datagram]
  · simp [h.sent]

lemma step_receiving {w : ℤ} (hp : s.phase = .receiving l i w) (h : Hdr) :
    step c s (.received h) = some (s.receive c l h) := by
  simp only [step,hp]

lemma step_timeout {w : ℤ} (hp : s.phase = .receiving l i w) :
    step c s .timeout = some ((s.count l.timeout).goto (.sending l (i+1))) := by
  simp only [step,hp]

/-- Messages that are sent and not answered in time. -/
def lost : List (Fin (2*10^9+1)) → List Event
  | [] => []
  | rnd::rnds => .wrote .ok rnd::.timeout::lost rnds

lemma run_lost (hc : c.retransmission ≠ 0) (h : At info xid requestedAddr n s) (hp : s.phase = .sending l i)
    (rnds : List (Fin (2*10^9+1))) : ∃ t, run (Exchange.step c) s (lost rnds) = some t ∧
      At info xid requestedAddr (n+rnds.length) t ∧ t.phase = .sending l (i+rnds.length) := by
  induction rnds generalizing s n i with
  | nil => exact ⟨s,rfl,h,hp⟩
  | cons rnd rnds ih =>
    obtain ⟨t,d,hsend,ht,htp⟩ := step_sending hc h hp rnd
    have hto := step_timeout (c := c) htp
    obtain ⟨u,hu,hat,hup⟩ := ih (s := (t.count l.timeout).goto (.sending l (i+1)))
      ⟨ht.info,ht.xid,ht.requestedAddr,ht.sent⟩ rfl
    refine ⟨u,?_,?_,?_⟩
    · rw [lost,run,hsend,Option.bind_some,run,hto,Option.bind_some]
      exact hu
    · rw [List.length_cons,Nat.add_comm rnds.length,← Nat.add_assoc]
      exact hat
    · rw [hup,List.length_cons,Nat.add_assoc,Nat.add_comm 1]

/-- A message that is sent and received, after others that were lost. -/
lemma run_heard (hc : c.retransmission ≠ 0) (h : At info xid requestedAddr n s) (hp : s.phase = .sending l i)
    (rnds : List (Fin (2*10^9+1))) (rnd : Fin (2*10^9+1)) :
    ∃ t j d, run (Exchange.step c) s (lost rnds ++ [.wrote .ok rnd]) = some t ∧
      At info xid requestedAddr (n+rnds.length+1) t ∧ t.phase = .receiving l j d := by
  obtain ⟨u,hu,hat,hup⟩ := run_lost hc h hp rnds
  obtain ⟨t,d,hsend,ht,htp⟩ := step_sending hc hat hup rnd
  refine ⟨t,i+rnds.length,d,?_,ht,htp⟩
  rw [run_append,hu,Option.bind_some,run,hsend]
  rfl

/-- A server's answer to a message of an exchange. -/
structure Answer (xid : List.Vector UInt8 4) (typ : MsgType) (h : Hdr) (r : Reply) (cfg : Config) : Prop where
  parsed : parse xid h = .ok (some r)
  typ : r.typ = typ
  decoded : Config.decode r.opts = .ok cfg

variable {h : Hdr} {r : Reply} {cfg : Config} {w : ℤ}

lemma step_offer (ha : Answer s.xid .offer h r cfg) (hp : s.phase = .receiving .discover i w) :
    step c s (.received h) = some ((s.count .recvOffers).select c cfg r.addr) := by
  rw [step_receiving hp]
  simp only [receive,ha.parsed,onOffer,ha.typ,ha.decoded]
  rfl

lemma step_ack (ha : Answer s.xid .ack h r cfg) (hp : s.phase = .receiving .request i w)
    (haddr : s.requestedAddr = ⟨r.addr,maskSize cfg.subnetMask⟩) :
    step c s (.received h) = some ((s.count .recvAcks).accept cfg) := by
  rw [step_receiving hp]
  simp only [receive,ha.parsed,onAck,ha.typ,ha.decoded,← haddr,if_true,ne_eq,not_true_eq_false,if_false]

lemma step_removed (s : Exchange) (cfg : Config) :
    step c (s.accept cfg) (.removed true) = some ((s.accept cfg).goto (.returned (.ok cfg))) := by
  simp only [step,accept,Bool.true_eq_false,and_false,if_false]

/-- The run of a client without a lease that hears an offer and an acknowledgement, after
any number of messages were lost. -/
def heard (rnds rnds' : List (Fin (2*10^9+1))) (rnd rnd' : Fin (2*10^9+1)) (offer ack : Hdr) : List Event :=
  [.opened .ok] ++ (lost rnds ++ [.wrote .ok rnd]) ++ [.received offer] ++ (lost rnds' ++ [.wrote .ok rnd']) ++
    [.received ack,.removed true]

/-- The address that an offer names; one without a mask is taken to mean the mask of the
address that the client has. -/
def offered (c : Client) (info : Info) (r : Reply) (cfg : Config) : AddressWithPrefix :=
  ⟨r.addr,maskSize (if cfg.subnetMask.length = 0 then (c.tcpip.subnet info.addr).mask else cfg.subnetMask)⟩

/-- An offer, and an acknowledgement of the same address with the same mask. -/
def Granted (c : Client) (info : Info) (xid : List.Vector UInt8 4) (offer ack : Hdr) (addr : AddressWithPrefix)
    (server : List UInt8) (cfg : Config) : Prop :=
  ∃ r r' cfg', Answer xid .offer offer r cfg' ∧ Answer xid .ack ack r' cfg ∧ server = cfg'.serverAddress ∧
    addr = offered c info r cfg' ∧ addr = ⟨r'.addr,maskSize cfg.subnetMask⟩

/-- However many messages are lost, an offer and then an acknowledgement of it complete the
exchange, and the address is the client's. -/
theorem run_granted (hc : c.retransmission ≠ 0) (hs : info.state = .initSelecting) {offer ack : Hdr}
    {addr : AddressWithPrefix} {server : List UInt8} (hg : Granted c info xid offer ack addr server cfg)
    (rnds rnds' : List (Fin (2*10^9+1))) (rnd rnd' : Fin (2*10^9+1)) :
    ∃ t, run (Exchange.step c) (start info xid) (heard rnds rnds' rnd rnd' offer ack) = some t ∧
      t.phase = .returned (.ok cfg) ∧ t.sent.length = rnds.length+rnds'.length+2 ∧
      t.info = {info with addr := addr, server := server} := by
  obtain ⟨r,r',cfg',ho,ha,rfl,hoffered,hacked⟩ := hg
  have hopen : step c (start info xid) (.opened .ok) = some ((start info xid).goto (.sending .discover 0)) := by
    have hinit : (start info xid).info.state = .initSelecting := hs
    rw [step_opened rfl (by rw [hinit]; decide),if_pos hinit]
  have hstart : At info xid info.addr 0 ((start info xid).goto (.sending .discover 0)) := ⟨rfl,rfl,rfl,rfl⟩
  obtain ⟨u,j,d,hu,hat,hup⟩ := run_heard hc hstart rfl rnds rnd
  have hoffer := step_offer (c := c) (hat.xid ▸ ho) hup
  have hselect : At {info with server := cfg'.serverAddress} xid addr (0+rnds.length+1)
      ((u.count .recvOffers).select c cfg' r.addr) := by
    refine ⟨?_,hat.xid,?_,hat.sent⟩
    · change ({u.info with server := cfg'.serverAddress} : Info) = _
      rw [hat.info]
    · change offered c u.info r cfg' = _
      rw [hat.info,hoffered]
  obtain ⟨v,k,d',hv,hvat,hvp⟩ := run_heard hc hselect rfl rnds' rnd'
  have hack := step_ack (c := c) (hvat.xid ▸ ha) hvp (hvat.requestedAddr.trans hacked)
  have hdone := step_removed (c := c) (v.count .recvAcks) cfg
  refine ⟨((v.count .recvAcks).accept cfg).goto (.returned (.ok cfg)),?_,rfl,?_,?_⟩
  · rw [heard,run_append,run_append,run_append,run_append,run,hopen,Option.bind_some,run,Option.bind_some,hu,
      Option.bind_some,run,hoffer,Option.bind_some,run,Option.bind_some,hv,Option.bind_some,run,hack,
      Option.bind_some,run,hdone]
    rfl
  · change v.sent.length = _
    rw [hvat.sent]
    omega
  · change ({v.info with addr := v.requestedAddr} : Info) = _
    rw [hvat.info,hvat.requestedAddr]

/-- The run of a client with a lease that hears an acknowledgement. -/
def reheard (rnds : List (Fin (2*10^9+1))) (rnd : Fin (2*10^9+1)) (ack : Hdr) : List Event :=
  [.opened .ok] ++ (lost rnds ++ [.wrote .ok rnd]) ++ [.received ack,.removed true]

/-- So does the acknowledgement of the address that the client has. -/
theorem run_renewed (hc : c.retransmission ≠ 0) (hs : info.state = .renewing ∨ info.state = .rebinding) {ack : Hdr}
    (ha : Answer xid .ack ack r cfg) (haddr : info.addr = ⟨r.addr,maskSize cfg.subnetMask⟩)
    (rnds : List (Fin (2*10^9+1))) (rnd : Fin (2*10^9+1)) :
    ∃ t, run (Exchange.step c) (start info xid) (reheard rnds rnd ack) = some t ∧
      t.phase = .returned (.ok cfg) ∧ t.sent.length = rnds.length+1 ∧ t.info = info := by
  have hopen : step c (start info xid) (.opened .ok) = some ((start info xid).goto (.sending .request 0)) := by
    have hstate : (start info xid).info.state = info.state := rfl
    rw [step_opened rfl (by rw [hstate]; rcases hs with hs | hs <;> rw [hs] <;> decide),hstate,
      if_neg (by rcases hs with hs | hs <;> rw [hs] <;> decide)]
  have hstart : At info xid info.addr 0 ((start info xid).goto (.sending .request 0)) := ⟨rfl,rfl,rfl,rfl⟩
  obtain ⟨u,j,d,hu,hat,hup⟩ := run_heard hc hstart rfl rnds rnd
  have hack := step_ack (c := c) (hat.xid ▸ ha) hup (hat.requestedAddr.trans haddr)
  have hdone := step_removed (c := c) (u.count .recvAcks) cfg
  refine ⟨((u.count .recvAcks).accept cfg).goto (.returned (.ok cfg)),?_,rfl,?_,?_⟩
  · rw [reheard,run_append,run_append,run,hopen,Option.bind_some,run,Option.bind_some,hu,Option.bind_some,run,hack,
      Option.bind_some,run,hdone]
    rfl
  · change u.sent.length = _
    rw [hat.sent]
    omega
  · change ({u.info with addr := u.requestedAddr} : Info) = _
    rw [hat.info,hat.requestedAddr]

lemma not_done_lost (rnds : List (Fin (2*10^9+1))) : .done ∉ lost rnds := by
  induction rnds with
  | nil => simp [lost]
  | cons rnd rnds ih => simpa [lost] using ih

lemma not_done_heard (rnds rnds' : List (Fin (2*10^9+1))) (rnd rnd' : Fin (2*10^9+1)) (offer ack : Hdr) :
    .done ∉ heard rnds rnds' rnd rnd' offer ack := by
  simp [heard,not_done_lost]

lemma not_done_reheard (rnds : List (Fin (2*10^9+1))) (rnd : Fin (2*10^9+1)) (ack : Hdr) :
    .done ∉ reheard rnds rnd ack := by
  simp [reheard,not_done_lost]

lemma answer_lease {typ : MsgType} (h : typ = .offer ∨ typ = .ack) (xid : List.Vector UInt8 4) :
    Answer xid typ (leaseMsg typ xid) ⟨leaseA.address,leaseOpts typ,typ⟩ leaseCfg :=
  ⟨parse_leaseMsg h _,rfl,decode_leaseOpts h⟩

/-- The server above grants its address to every client that asks for it. -/
lemma granted_lease (c : Client) (info : Info) (xid : List.Vector UInt8 4) :
    Granted c info xid (leaseMsg .offer xid) (leaseMsg .ack xid) leaseA [10,0,0,254] leaseCfg :=
  ⟨_,_,_,answer_lease (.inl rfl) xid,answer_lease (.inr rfl) xid,rfl,rfl,rfl⟩

end Answered

section Provenance
variable {es : List Event}

/-- The offer that an exchange has selected, among the packets received so far. -/
def Selected (c : Client) (info : Info) (xid : List.Vector UInt8 4) (es : List Event) (s : Exchange) : Prop :=
  ∃ h r cfg, .received h ∈ es ∧ parse xid h = .ok (some r) ∧ r.typ = .offer ∧ Config.decode r.opts = .ok cfg ∧
    s.info.server = cfg.serverAddress ∧ s.requestedAddr = offered c info r cfg

/-- The acknowledgement that ended an exchange, and the offer before it. -/
def Acknowledged (c : Client) (info : Info) (xid : List.Vector UInt8 4) (es : List Event) (s : Exchange)
    (cfg : Config) : Prop :=
  ∃ pre h post r, es = pre ++ .received h::post ∧ parse xid h = .ok (some r) ∧ r.typ = .ack ∧
    Config.decode r.opts = .ok cfg ∧ s.requestedAddr = ⟨r.addr,maskSize cfg.subnetMask⟩ ∧
    (info.state = .initSelecting → Selected c info xid pre s)

lemma Selected.mono (h : Selected c info xid es s) (e : Event) (hs : t.info.server = s.info.server)
    (hr : t.requestedAddr = s.requestedAddr) : Selected c info xid (es ++ [e]) t := by
  obtain ⟨b,r,cfg,hb,hrest⟩ := h
  refine ⟨b,r,cfg,List.mem_append_left _ hb,?_⟩
  rw [hs,hr]
  exact hrest

lemma Acknowledged.mono {cfg : Config} (h : Acknowledged c info xid es s cfg) (e : Event)
    (hs : t.info.server = s.info.server) (hr : t.requestedAddr = s.requestedAddr) :
    Acknowledged c info xid (es ++ [e]) t cfg := by
  obtain ⟨pre,b,post,r,hes,hx,htyp,hd,ha,hsel⟩ := h
  refine ⟨pre,b,post ++ [e],r,?_,hx,htyp,hd,hr.trans ha,?_⟩
  · rw [hes,List.append_assoc,List.cons_append]
  · intro hi
    obtain ⟨b',r',cfg',hb',hrest⟩ := hsel hi
    refine ⟨b',r',cfg',hb',?_⟩
    rw [hs,hr]
    exact hrest

structure Origin (c : Client) (info : Info) (xid : List.Vector UInt8 4) (es : List Event) (s : Exchange) : Prop where
  kept : Kept info xid s
  selected : s.phase.leg = some .request → info.state = .initSelecting → Selected c info xid es s
  acknowledged : ∀ cfg, s.phase.result = some (.ok cfg) → Acknowledged c info xid es s cfg

/-- A step that neither selects an offer nor accepts an acknowledgement. -/
lemma Origin.move (h : Origin c info xid es s) (hk : Kept info xid t) (e : Event)
    (hs : t.info.server = s.info.server) (hr : t.requestedAddr = s.requestedAddr)
    (hleg : t.phase.leg = some .request → info.state = .initSelecting → s.phase.leg = some .request)
    (hres : ∀ cfg, t.phase.result = some (.ok cfg) → s.phase.result = some (.ok cfg)) :
    Origin c info xid (es ++ [e]) t where
  kept := hk
  selected hl hi := (h.selected (hleg hl hi) hi).mono e hs hr
  acknowledged cfg hcfg := (h.acknowledged cfg (hres cfg hcfg)).mono e hs hr

/-- A step that ends the exchange, or panics. -/
lemma Origin.leave (h : Origin c info xid es s) (hk : Kept info xid t) (e : Event)
    (hs : t.info.server = s.info.server) (hr : t.requestedAddr = s.requestedAddr) (hleg : t.phase.leg = none)
    (hres : ∀ cfg, t.phase.result ≠ some (.ok cfg)) : Origin c info xid (es ++ [e]) t := by
  refine h.move hk e hs hr ?_ ?_
  · intro hl
    rw [hleg] at hl
    cases hl
  · intro cfg hcfg
    exact absurd hcfg (hres cfg)

lemma Origin.step (h : Origin c info xid es s) {e : Event} (ht : step c s e = some t) :
    Origin c info xid (es ++ [e]) t := by
  have hk := h.kept.step ht
  cases step_inv ht with
  | unknown => exact h.leave hk _ rfl rfl rfl (by rintro _ ⟨⟩)
  | opened hp hs =>
    refine h.move hk _ rfl rfl ?_ (by rintro _ ⟨⟩)
    intro hl hi
    rw [goto_phase,if_pos (h.kept.state.trans hi)] at hl
    cases hl
  | refused => exact h.leave hk _ rfl rfl rfl (by rintro _ ⟨⟩)
  | unopened => exact h.leave hk _ rfl rfl rfl (by rintro _ ⟨⟩)
  | wrote hp hsend =>
    cases hsend with
    | ok =>
      refine h.move hk _ rfl rfl ?_ (by rintro _ ⟨⟩)
      intro hl _
      rw [hp]
      exact hl
    | divide => exact h.leave hk _ rfl rfl rfl (by rintro _ ⟨⟩)
    | blocked => exact h.leave hk _ rfl rfl rfl (by rintro _ ⟨⟩)
    | failed => exact h.leave hk _ rfl rfl rfl (by rintro _ ⟨⟩)
  | foreign => exact h.move hk _ rfl rfl (fun hl _ => hl) (fun _ hc => hc)
  | malformed => exact h.leave hk _ rfl rfl rfl (by rintro _ ⟨⟩)
  | @reply l i w b r t hp hx hrep =>
    rw [h.kept.xid] at hx
    have hacq : s.phase.acquired = false := by rw [hp]; rfl
    cases hrep with
    | otherOffer => exact h.move hk _ rfl rfl (fun hl _ => hl) (fun _ hc => hc)
    | badOffer => exact h.leave hk _ rfl rfl rfl (by rintro _ ⟨⟩)
    | @offer r cfg htyp hd =>
      refine ⟨hk,fun _ _ => ⟨b,r,cfg,by simp,hx,htyp,hd,rfl,?_⟩,(by rintro _ ⟨⟩)⟩
      rw [offered,← h.kept.addr hacq]
      rfl
    | otherAck => exact h.move hk _ rfl rfl (fun hl _ => hl) (fun _ hc => hc)
    | badAck => exact h.leave hk _ rfl rfl rfl (by rintro _ ⟨⟩)
    | addrAck => exact h.leave hk _ rfl rfl rfl (by rintro _ ⟨⟩)
    | @ack r cfg htyp hd ha =>
      refine ⟨hk,(by rintro ⟨⟩),?_⟩
      intro cfg' hcfg
      cases hcfg
      have hsel := h.selected (by rw [hp]; rfl)
      exact ⟨es,b,[],r,rfl,hx,htyp,hd,ha,hsel⟩
    | nak => exact h.leave hk _ rfl rfl rfl (by rintro _ ⟨⟩)
    | emptyNak => exact h.leave hk _ rfl rfl rfl (by rintro _ ⟨⟩)
  | readFails => exact h.leave hk _ rfl rfl rfl (by rintro _ ⟨⟩)
  | done => exact h.leave hk _ rfl rfl rfl (by rintro _ ⟨⟩)
  | timeout hp =>
    refine h.move hk _ rfl rfl ?_ (by rintro _ ⟨⟩)
    intro hl _
    rw [hp]
    exact hl
  | stuck => exact h.leave hk _ rfl rfl rfl (by rintro _ ⟨⟩)
  | returned hp =>
    refine h.move hk _ rfl rfl (fun hl => by cases hl) ?_
    rw [hp]
    exact fun _ hc => hc

/-- A lease on `leaseA` that is renewed. -/
def leasedInfo (state : ClientState) : Info := ⟨leaseA,[10,0,0,254],state,leaseA⟩

lemma run_renewal : ∃ s, run (Exchange.step (newClient dotted [] [] [])) (start (leasedInfo .renewing) (fit 4 []))
      [.opened .ok,.wrote .ok 0,.received (leaseMsg .ack (fit 4 [])),.removed true] = some s ∧
    s.phase = .returned (.ok leaseCfg) ∧ s.sent.length = 1 := by
  have hs : (leasedInfo .renewing).state = .renewing ∨ (leasedInfo .renewing).state = .rebinding := .inl rfl
  obtain ⟨s,hr,hp,hsent,-⟩ := run_renewed (c := newClient dotted [] [] []) (by decide) hs
    (answer_lease (.inr rfl) (fit 4 [])) rfl [] 0
  exact ⟨s,hr,hp,hsent⟩

end Provenance

section Foreign

/-- The inputs of an exchange without the replies to other clients. -/
def ours (xid : List.Vector UInt8 4) : Event → Bool
  | .received h => parse xid h ≠ .ok none
  | _ => true

/-- Replies to other clients make no difference, wherever they arrive: without them the run
reaches the same state, with the same messages sent and the same counts. -/
theorem foreign_ignored {es : List Event} (hr : run (Exchange.step c) (start info xid) es = some s) :
    run (Exchange.step c) (start info xid) (es.filter (ours xid)) = some s := by
  refine run_filter (I := Kept info xid) (fun _ _ _ h ht => h.step ht) ?_ (kept_start info xid) hr
  intro s e t hk he ht
  cases e with
  | received h =>
    have hx : parse xid h = .ok none := by simpa [ours] using he
    cases step_inv ht with
    | foreign => rfl
    | malformed _ hx' =>
      rw [hk.xid,hx] at hx'
      cases hx'
    | reply _ hx' =>
      rw [hk.xid,hx] at hx'
      cases hx'
  | _ => cases he

/-- A reply of another transaction. -/
def otherMsg : Hdr := (Header.reply (fit 4 [1]) (fit 4 [])).on [255]

lemma parse_otherMsg : parse (fit 4 []) otherMsg = .ok none := by
  rw [parse_eq_none_iff]
  refine ⟨Header.isReply _ _ (by simp),?_⟩
  rw [otherMsg,Header.read_xid]
  decide

theorem foreign_ignored_offer :
    ∃ s, run (Exchange.step (newClient dotted [] [] [])) (start newInfo (fit 4 []))
        [.opened .ok,.wrote .ok 0,.received otherMsg] = some s ∧
      run (Exchange.step (newClient dotted [] [] [])) (start newInfo (fit 4 []))
        [.opened .ok,.wrote .ok 0] = some s := by
  have hopen := step_opened (c := newClient dotted [] [] []) (s := start newInfo (fit 4 [])) rfl (by decide)
  have hstart : At newInfo (fit 4 []) noAddress 0 ((start newInfo (fit 4 [])).goto (.sending .discover 0)) :=
    ⟨rfl,rfl,rfl,rfl⟩
  obtain ⟨u,d,hsend,hat,hup⟩ := step_sending (c := newClient dotted [] [] []) (by decide) hstart rfl 0
  have hother : Exchange.step (newClient dotted [] [] []) u (.received otherMsg) = some u := by
    rw [step_receiving hup,receive,hat.xid,parse_otherMsg]
  have hr : run (Exchange.step (newClient dotted [] [] [])) (start newInfo (fit 4 []))
      [.opened .ok,.wrote .ok 0,.received otherMsg] = some u := by
    rw [run,hopen,Option.bind_some,run]
    exact Option.bind_eq_some_iff.mpr ⟨u,hsend,by rw [run,hother]; rfl⟩
  refine ⟨u,hr,?_⟩
  have hf : ¬ ours (fit 4 []) (.received otherMsg) = true := by
    rw [ours,decide_eq_true_eq,not_not]
    exact parse_otherMsg
  have h := foreign_ignored hr
  rwa [List.filter_cons_of_pos rfl,List.filter_cons_of_pos rfl,List.filter_cons_of_neg hf] at h

end Foreign

end Exchange

end ArmoredWitness.Dhcp

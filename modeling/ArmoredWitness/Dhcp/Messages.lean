import ArmoredWitness.Dhcp.Acquire

/-! What the client puts on the wire, against the table of client messages of the protocol
that `acquire` quotes, and how the counters account for it. -/
namespace ArmoredWitness.Dhcp
open Lib Lib.Tlv Lib.Transition Net

namespace Phase

/-- No REQUEST has been sent yet. -/
def early : Phase → Bool
  | .opening | .sending .discover _ | .receiving .discover _ _ => true
  | _ => false

/-- One if a message of the leg has been sent and not been answered yet. -/
def awaits (l : Leg) : Phase → ℕ
  | .receiving l' _ _ => if l' = l then 1 else 0
  | _ => 0

/-- One if the exchange has ended, other than for want of an endpoint. -/
def ended (p : Phase) : ℕ :=
  match p.result with
  | none | some (.error .endpoint) => 0
  | some _ => 1

/-- One if the exchange has ended with a lease. -/
def succeeded (p : Phase) : ℕ :=
  match p.result with
  | some (.ok _) => 1
  | _ => 0

end Phase

namespace Exchange
variable {c : Client} {info : Info} {xid : List.Vector UInt8 4} {s t : Exchange}

section Messages
variable {es : List Event}

def discoverMsg (c : Client) (info : Info) (xid : List.Vector UInt8 4) : Datagram :=
  ⟨ipv4Broadcast,(Header.request c.linkAddr info.addr.address xid true false).on
    (bytes (discOpts c info.addr) ++ [255,0])⟩

def requestMsg (c : Client) (info : Info) (xid : List.Vector UInt8 4) (server : List UInt8)
    (requestedAddr : AddressWithPrefix) : Datagram :=
  ⟨writeTo info,(Header.request c.linkAddr info.addr.address xid (info.state = .initSelecting)
    (info.state ≠ .initSelecting)).on (bytes (reqOpts c {info with server := server} requestedAddr) ++ [255,0])⟩

lemma Kept.datagram_discover (h : Kept info xid s) {i : ℕ} (hp : s.phase = .sending .discover i) :
    s.datagram c .discover = discoverMsg c info xid := by
  have hinit : s.info.state = .initSelecting := h.state.trans (h.leg (by rw [hp]; rfl))
  have haddr : s.info.addr = info.addr := h.addr (by rw [hp]; rfl)
  have hto : writeTo s.info = ipv4Broadcast := by
    rw [writeTo,hinit]
    rfl
  simp only [datagram,discoverMsg,opts,broadcast,ciaddr,haddr,hto,h.xid]

lemma Kept.datagram_request (h : Kept info xid s) {i : ℕ} (hp : s.phase = .sending .request i) :
    s.datagram c .request = requestMsg c info xid s.info.server s.requestedAddr := by
  have haddr : s.info.addr = info.addr := h.addr (by rw [hp]; rfl)
  have hto : writeTo s.info = writeTo info := by
    unfold writeTo
    rw [h.state]
    split
    · rename_i hs
      exact h.server (by rw [hs]; decide)
    · rfl
  have hopts : reqOpts c s.info s.requestedAddr = reqOpts c {info with server := s.info.server} s.requestedAddr := by
    simp only [reqOpts,h.state]
  simp only [datagram,requestMsg,opts,broadcast,ciaddr,haddr,hto,hopts,h.xid,h.state]

/-- Every message sent so far is the DISCOVER of the exchange, or its REQUEST: there is only
one, since the offer is selected before the first is sent. -/
structure Recorded (c : Client) (info : Info) (xid : List.Vector UInt8 4) (es : List Event) (s : Exchange) :
    Prop where
  origin : Origin c info xid es s
  sent : ∀ d ∈ s.sent, (info.state = .initSelecting ∧ d = discoverMsg c info xid) ∨
    (s.phase.early = false ∧ d = requestMsg c info xid s.info.server s.requestedAddr ∧
      (info.state = .initSelecting → Selected c info xid es s))

/-- A step that sends nothing and selects nothing. -/
lemma Recorded.move (h : Recorded c info xid es s) {e : Event} (ho : Origin c info xid (es ++ [e]) t)
    (hsent : t.sent = s.sent) (hs : t.info.server = s.info.server) (hr : t.requestedAddr = s.requestedAddr)
    (he : t.phase.early = true → s.phase.early = true) : Recorded c info xid (es ++ [e]) t := by
  refine ⟨ho,?_⟩
  intro d hd
  rw [hsent] at hd
  cases h.sent d hd with
  | inl hdisc => exact .inl hdisc
  | inr hreq =>
    obtain ⟨hearly,hmsg,hsel⟩ := hreq
    refine .inr ⟨?_,?_,fun hi => (hsel hi).mono e hs hr⟩
    · cases hte : t.phase.early with
      | false => rfl
      | true =>
        rw [he hte] at hearly
        cases hearly
    · rw [hs,hr]
      exact hmsg

/-- A step that sends the message of a leg. -/
lemma Recorded.push (h : Recorded c info xid es s) {e : Event} (ho : Origin c info xid (es ++ [e]) t)
    {l : Leg} {i : ℕ}
    (hp : s.phase = .sending l i) (hsent : t.sent = s.sent ++ [s.datagram c l])
    (hs : t.info.server = s.info.server) (hr : t.requestedAddr = s.requestedAddr)
    (he : t.phase.early = true → s.phase.early = true) : Recorded c info xid (es ++ [e]) t := by
  have hrest := (h.move (t := {t with sent := s.sent}) ⟨⟨ho.kept.xid,ho.kept.state,ho.kept.oldAddr,ho.kept.addr,
    ho.kept.acquired,ho.kept.leg,ho.kept.server,ho.kept.requested⟩,ho.selected,ho.acknowledged⟩ rfl hs hr he).sent
  refine ⟨ho,?_⟩
  intro d hd
  rw [hsent,List.mem_append,List.mem_singleton] at hd
  cases hd with
  | inl hd => exact hrest d hd
  | inr hd =>
    subst hd
    cases l with
    | discover =>
      exact .inl ⟨h.origin.kept.leg (by rw [hp]; rfl),h.origin.kept.datagram_discover hp⟩
    | request =>
      refine .inr ⟨?_,?_,?_⟩
      · cases hte : t.phase.early with
        | false => rfl
        | true =>
          have hse := he hte
          rw [hp] at hse
          cases hse
      · rw [hs,hr]
        exact h.origin.kept.datagram_request hp
      · intro hi
        exact (h.origin.selected (by rw [hp]; rfl) hi).mono e hs hr

lemma Recorded.step (h : Recorded c info xid es s) {e : Event} (ht : step c s e = some t) :
    Recorded c info xid (es ++ [e]) t := by
  have ho := h.origin.step ht
  cases step_inv ht with
  | unknown hp => exact h.move ho rfl rfl rfl (by rintro ⟨⟩)
  | opened hp hs => exact h.move ho rfl rfl rfl (fun _ => by rw [hp]; rfl)
  | refused hp => exact h.move ho rfl rfl rfl (by rintro ⟨⟩)
  | unopened hp => exact h.move ho rfl rfl rfl (by rintro ⟨⟩)
  | @wrote l i r rnd t hp hsend =>
    cases hsend with
    | ok =>
      refine h.push ho hp rfl rfl rfl ?_
      rw [hp]
      cases l <;> exact id
    | divide => exact h.push ho hp rfl rfl rfl (by rintro ⟨⟩)
    | blocked => exact h.move ho rfl rfl rfl (by rintro ⟨⟩)
    | failed => exact h.move ho rfl rfl rfl (by rintro ⟨⟩)
  | foreign => exact h.move ho rfl rfl rfl id
  | malformed hp => exact h.move ho rfl rfl rfl (by rintro ⟨⟩)
  | reply hp hx hrep =>
    cases hrep with
    | otherOffer => exact h.move ho rfl rfl rfl id
    | badOffer => exact h.move ho rfl rfl rfl (by rintro ⟨⟩)
    | offer =>
      refine ⟨ho,?_⟩
      intro d hd
      cases h.sent d hd with
      | inl hdisc => exact .inl hdisc
      | inr hreq =>
        have hearly := hreq.1
        rw [hp] at hearly
        cases hearly
    | otherAck => exact h.move ho rfl rfl rfl id
    | badAck => exact h.move ho rfl rfl rfl (by rintro ⟨⟩)
    | addrAck => exact h.move ho rfl rfl rfl (by rintro ⟨⟩)
    | ack => exact h.move ho rfl rfl rfl (by rintro ⟨⟩)
    | nak => exact h.move ho rfl rfl rfl (by rintro ⟨⟩)
    | emptyNak => exact h.move ho rfl rfl rfl (by rintro ⟨⟩)
  | readFails => exact h.move ho rfl rfl rfl (by rintro ⟨⟩)
  | done => exact h.move ho rfl rfl rfl (by rintro ⟨⟩)
  | @timeout l i w hp =>
    refine h.move ho rfl rfl rfl ?_
    rw [hp]
    cases l <;> exact id
  | stuck => exact h.move ho rfl rfl rfl (by rintro ⟨⟩)
  | returned => exact h.move ho rfl rfl rfl (by rintro ⟨⟩)

lemma recorded_run (hr : run (Exchange.step c) (start info xid) es = some s) : Recorded c info xid es s := by
  refine run_history (I := fun es s => Recorded c info xid es s) (fun _ _ _ _ h ht => h.step ht) ?_ hr
  exact ⟨⟨kept_start info xid,(by rintro ⟨⟩),(by rintro _ ⟨⟩)⟩,by simp [start]⟩

/-- What the table of client messages asks of a message that the client sends, read from
the bytes on the wire. In the initial state messages are broadcast and the address of the
client is left out; a REQUEST names the server and the address, and a DISCOVER may ask for
the last address. A renewal goes to the server; it and a rebinding carry the address of the
client and name neither server nor address. -/
structure Conforms (info : Info) (xid : List.Vector UInt8 4) (d : Datagram) (typ : MsgType) (opts : List Field) :
    Prop where
  valid : (Hdr.isValid d.data : Outcome Empty Bool) = .ok true
  op : d.data[0]? = some opRequest
  xid : Window.read d.data 4 4 = xid.toList
  options : options d.data = .ok opts
  msgType : dhcpMsgType opts = .ok typ
  kind : typ = .request ∨ typ = .discover ∧ info.state = .initSelecting
  dst : d.dst = if info.state = .renewing then info.server else ipv4Broadcast
  flags : d.data[10]? = some (if info.state = .initSelecting then 0x80 else 0)
  ciaddr : Window.read d.data 12 4 =
    if info.state = .initSelecting then [0,0,0,0] else (fit 4 info.addr.address).toList
  server : (∃ opt ∈ opts, opt.code = optDHCPServer) ↔ info.state = .initSelecting ∧ typ = .request
  requestedIP : (∃ opt ∈ opts, opt.code = optReqIPAddr) ↔
    info.state = .initSelecting ∧ (typ = .request ∨ info.addr.address ≠ [])

/-- Every option has a length that is valid for its code. -/
def Complete (opts : List Field) : Prop := ∀ opt ∈ opts, lenValid opt.code opt.body.length = true

/-- The headers of requests are those of the table. -/
lemma conforms_header (c : Client) (info : Info) (xid : List.Vector UInt8 4) {d : Datagram} {opts : List Field}
    (hall : ∀ opt ∈ opts, framing.Carries opt) {b ci : Bool}
    (hd : d.data = (Header.request c.linkAddr info.addr.address xid b ci).on (bytes opts ++ [255,0])) :
    (Hdr.isValid d.data : Outcome Empty Bool) = .ok true ∧ d.data[0]? = some opRequest ∧
      Window.read d.data 4 4 = xid.toList ∧ Dhcp.options d.data = .ok opts ∧
      d.data[10]? = some (if b then 0x80 else 0) ∧
      Window.read d.data 12 4 = (if ci then fit 4 info.addr.address else fit 4 []).toList := by
  have hlen : dhcpMinimumSize ≤ d.data.length := by
    rw [hd,Header.on_length]
    simp [dhcpMinimumSize,headerBaseSize]
    omega
  have hop : d.data[0]? = some opRequest := by rw [hd]; rfl
  have hvalid : ValidHdr d.data := by
    refine ⟨.inl hop,?_,?_⟩
    · rw [hd]
      rfl
    · rw [hd,Header.read_cookie]
      rfl
  refine ⟨?_,hop,?_,?_,?_,?_⟩
  · rw [isValid_of_length hlen,decide_eq_true hvalid]
  · rw [hd,Header.read_xid]
    rfl
  · rw [hd,options_eq_ok_iff (by simp [Header.on_length]),Header.on_drop]
    exact stream_bytes (by decide) hall [0]
  · rw [hd,Header.flags_on]
    cases b <;> rfl
  · rw [hd,Header.read_ciaddr]
    rfl

lemma code_commonOpts {opt : Field} (h : opt ∈ commonOpts c) :
    opt.code ≠ optDHCPServer ∧ opt.code ≠ optReqIPAddr := by
  simp only [commonOpts,List.mem_append,List.mem_singleton,List.mem_ite_nil_right] at h
  rcases h with (rfl | ⟨-,rfl⟩) | ⟨-,rfl⟩
  · exact ⟨by decide,by decide⟩
  · exact ⟨show optClientID ≠ _ by decide,show optClientID ≠ _ by decide⟩
  · exact ⟨show optHostname ≠ _ by decide,show optHostname ≠ _ by decide⟩

lemma mem_discOpts {addr : AddressWithPrefix} {opt : Field} : opt ∈ discOpts c addr ↔
    opt = ⟨optDHCPMsgType,[MsgType.discover.toByte]⟩ ∨ opt ∈ commonOpts c ∨
      (addr.address ≠ [] ∧ opt = ⟨optReqIPAddr,addr.address⟩) := by
  simp only [discOpts,List.mem_append,List.mem_singleton,List.mem_ite_nil_right,or_assoc,ne_eq,
    List.length_eq_zero_iff]

lemma mem_reqOpts {addr : AddressWithPrefix} {opt : Field} : opt ∈ reqOpts c info addr ↔
    opt = ⟨optDHCPMsgType,[MsgType.request.toByte]⟩ ∨ opt ∈ commonOpts c ∨
      (info.state = .initSelecting ∧ (opt = ⟨optDHCPServer,info.server⟩ ∨ opt = ⟨optReqIPAddr,addr.address⟩)) := by
  simp only [reqOpts,List.mem_append,List.mem_ite_nil_right,or_assoc,List.mem_cons,List.not_mem_nil,or_false]

/-- A server that an offer names is an address of IPv4, and so is what it offers. -/
lemma Selected.lengths (h : Selected c info xid es s) :
    (s.info.server = [] ∨ s.info.server.length = 4) ∧ s.requestedAddr.address.length = 4 := by
  obtain ⟨b,r,cfg,-,hx,-,hd,hserver,hreq⟩ := h
  obtain ⟨hreply,-,-,-,haddr⟩ := parse_eq_some_iff.mp hx
  constructor
  · rw [hserver]
    exact (Config.decode_addressed hd).server
  · have hlen := hreply.length
    rw [hreq]
    change r.addr.length = 4
    rw [haddr,Window.read_length]
    change 241 ≤ b.length at hlen
    omega

lemma complete_commonOpts : Complete (commonOpts c) := by
  intro opt hopt
  simp only [commonOpts,List.mem_append,List.mem_singleton,List.mem_ite_nil_right] at hopt
  rcases hopt with (rfl | ⟨hne,rfl⟩) | ⟨hne,rfl⟩
  · rfl
  · exact decide_eq_true (List.length_pos_iff.mpr hne)
  · exact decide_eq_true (List.length_pos_iff.mpr hne)

lemma complete_discOpts {addr : AddressWithPrefix} :
    Complete (discOpts c addr) ↔ addr.address = [] ∨ addr.address.length = 4 := by
  constructor
  · intro h
    by_cases hne : addr.address = []
    · exact .inl hne
    · exact .inr (of_decide_eq_true (h _ (mem_discOpts.mpr (.inr (.inr ⟨hne,rfl⟩)))))
  · intro h opt hopt
    rcases mem_discOpts.mp hopt with rfl | hopt | ⟨hne,rfl⟩
    · rfl
    · exact complete_commonOpts opt hopt
    · exact decide_eq_true (h.resolve_left hne)

lemma complete_reqOpts {addr : AddressWithPrefix} : Complete (reqOpts c info addr) ↔
    (info.state = .initSelecting → info.server.length = 4 ∧ addr.address.length = 4) := by
  constructor
  · intro h hs
    exact ⟨of_decide_eq_true (h _ (mem_reqOpts.mpr (.inr (.inr ⟨hs,.inl rfl⟩)))),
      of_decide_eq_true (h _ (mem_reqOpts.mpr (.inr (.inr ⟨hs,.inr rfl⟩))))⟩
  · intro h opt hopt
    rcases mem_reqOpts.mp hopt with rfl | hopt | ⟨hs,rfl | rfl⟩
    · rfl
    · exact complete_commonOpts opt hopt
    · exact decide_eq_true (h hs).1
    · exact decide_eq_true (h hs).2

section Lengths
variable (hid : c.clientID.length < 256) (hname : c.hostname.length < 256)
include hid hname

lemma carries_commonOpts : ∀ opt ∈ commonOpts c, framing.Carries opt := by
  intro opt hopt
  simp only [commonOpts,List.mem_append,List.mem_singleton,List.mem_ite_nil_right] at hopt
  rcases hopt with (rfl | ⟨-,rfl⟩) | ⟨-,rfl⟩
  · exact carries_of (by decide) (by decide)
  · exact carries_of (by decide) hid
  · exact carries_of (by decide) hname

lemma conforms_discover (hs : info.state = .initSelecting) (haddr : info.addr.address.length < 256) :
    Conforms info xid (discoverMsg c info xid) .discover (discOpts c info.addr) := by
  have hall : ∀ opt ∈ discOpts c info.addr, framing.Carries opt := by
    intro opt hopt
    rcases mem_discOpts.mp hopt with rfl | hopt | ⟨-,rfl⟩
    · exact carries_of (by decide) (by decide)
    · exact carries_commonOpts hid hname opt hopt
    · exact carries_of (by decide) haddr
  obtain ⟨hvalid,hop,hxid,hopts,hflags,hci⟩ := conforms_header c info xid (d := discoverMsg c info xid) hall rfl
  refine ⟨hvalid,hop,hxid,hopts,rfl,.inr ⟨rfl,hs⟩,?_,?_,?_,?_,?_⟩
  · rw [hs]
    rfl
  · rw [hflags,hs]
    rfl
  · rw [hci,hs]
    rfl
  · constructor
    · rintro ⟨opt,hopt,hcode⟩
      rcases mem_discOpts.mp hopt with rfl | hopt | ⟨-,rfl⟩
      · cases hcode
      · exact absurd hcode (code_commonOpts hopt).1
      · cases hcode
    · rintro ⟨-,hreq⟩
      cases hreq
  · constructor
    · rintro ⟨opt,hopt,hcode⟩
      rcases mem_discOpts.mp hopt with rfl | hopt | ⟨hne,rfl⟩
      · cases hcode
      · exact absurd hcode (code_commonOpts hopt).2
      · exact ⟨hs,.inr hne⟩
    · rintro ⟨-,hreq | hne⟩
      · cases hreq
      · exact ⟨_,mem_discOpts.mpr (.inr (.inr ⟨hne,rfl⟩)),rfl⟩

lemma conforms_request {server : List UInt8} {requestedAddr : AddressWithPrefix}
    (hserver : info.state = .initSelecting → server.length < 256)
    (haddr : info.state = .initSelecting → requestedAddr.address.length < 256) :
    Conforms info xid (requestMsg c info xid server requestedAddr) .request
      (reqOpts c {info with server := server} requestedAddr) := by
  have hall : ∀ opt ∈ reqOpts c {info with server := server} requestedAddr, framing.Carries opt := by
    intro opt hopt
    rcases mem_reqOpts.mp hopt with rfl | hopt | ⟨hs,rfl | rfl⟩
    · exact carries_of (by decide) (by decide)
    · exact carries_commonOpts hid hname opt hopt
    · exact carries_of (by decide) (hserver hs)
    · exact carries_of (by decide) (haddr hs)
  obtain ⟨hvalid,hop,hxid,hopts,hflags,hci⟩ :=
    conforms_header c info xid (d := requestMsg c info xid server requestedAddr) hall rfl
  refine ⟨hvalid,hop,hxid,hopts,rfl,.inl rfl,rfl,?_,?_,?_,?_⟩
  · rw [hflags]
    simp only [decide_eq_true_eq]
  · rw [hci]
    by_cases hs : info.state = .initSelecting
    · simp only [hs]
      rfl
    · simp only [hs,ne_eq,not_false_eq_true,decide_true,if_true,if_false]
  · constructor
    · rintro ⟨opt,hopt,hcode⟩
      rcases mem_reqOpts.mp hopt with rfl | hopt | ⟨hs,rfl | rfl⟩
      · cases hcode
      · exact absurd hcode (code_commonOpts hopt).1
      · exact ⟨hs,rfl⟩
      · exact ⟨hs,rfl⟩
    · rintro ⟨hs,-⟩
      exact ⟨_,mem_reqOpts.mpr (.inr (.inr ⟨hs,.inl rfl⟩)),rfl⟩
  · constructor
    · rintro ⟨opt,hopt,hcode⟩
      rcases mem_reqOpts.mp hopt with rfl | hopt | ⟨hs,rfl | rfl⟩
      · cases hcode
      · exact absurd hcode (code_commonOpts hopt).2
      · exact ⟨hs,.inl rfl⟩
      · exact ⟨hs,.inl rfl⟩
    · rintro ⟨hs,-⟩
      exact ⟨_,mem_reqOpts.mpr (.inr (.inr ⟨hs,.inr rfl⟩)),rfl⟩

/-- Every message of every exchange is one that the table allows, and a REQUEST in the
initial state names the server and the address of an offer received before. The options
have valid lengths unless that offer did not name the server, or a DISCOVER asks for a last
address that is not one of IPv4. -/
theorem messages_conform (haddr : info.addr.address.length < 256)
    (hr : run (Exchange.step c) (start info xid) es = some s) {d : Datagram} (hd : d ∈ s.sent) :
    ∃ typ opts, Conforms info xid d typ opts ∧
      (info.state = .initSelecting → typ = .request → Selected c info xid es s ∧
        (⟨optDHCPServer,s.info.server⟩ : Field) ∈ opts ∧ (⟨optReqIPAddr,s.requestedAddr.address⟩ : Field) ∈ opts) ∧
      (Complete opts ↔ (info.state = .initSelecting → (typ = .request → s.info.server ≠ []) ∧
        (typ = .discover → info.addr.address = [] ∨ info.addr.address.length = 4))) := by
  cases (recorded_run hr).sent d hd with
  | inl hdisc =>
    obtain ⟨hs,rfl⟩ := hdisc
    refine ⟨.discover,_,conforms_discover hid hname hs haddr,?_,?_⟩
    · intro _ hreq
      cases hreq
    · rw [complete_discOpts]
      exact ⟨fun h _ => ⟨by rintro ⟨⟩,fun _ => h⟩,fun h => (h hs).2 rfl⟩
  | inr hreq =>
    obtain ⟨-,rfl,hsel⟩ := hreq
    refine ⟨.request,_,conforms_request hid hname ?_ ?_,?_,?_⟩
    · intro hs
      rcases (hsel hs).lengths.1 with hnil | hfour
      · rw [hnil]
        decide
      · omega
    · intro hs
      have hfour := (hsel hs).lengths.2
      omega
    · intro hs _
      exact ⟨hsel hs,mem_reqOpts.mpr (.inr (.inr ⟨hs,.inl rfl⟩)),mem_reqOpts.mpr (.inr (.inr ⟨hs,.inr rfl⟩))⟩
    · rw [complete_reqOpts]
      constructor
      · intro h hs
        refine ⟨fun _ hnil => ?_,by rintro ⟨⟩⟩
        have hfour : s.info.server.length = 4 := (h hs).1
        rw [hnil] at hfour
        cases hfour
      · intro h hs
        exact ⟨(hsel hs).lengths.1.resolve_left ((h hs).1 rfl),(hsel hs).lengths.2⟩

end Lengths

/-- The messages of a first lease. -/
theorem messages_conform_granted : ∃ es s,
    run (Exchange.step (newClient dotted [] [] [])) (start newInfo (fit 4 [])) es = some s ∧ s.sent.length = 2 ∧
      ∀ d ∈ s.sent, ∃ typ opts, Conforms newInfo (fit 4 []) d typ opts ∧ Complete opts := by
  obtain ⟨s,hr,-,hsent,hinfo⟩ := run_granted (c := newClient dotted [] [] []) (by decide) rfl
    (granted_lease _ newInfo (fit 4 [])) [] [] 0 0
  refine ⟨_,s,hr,hsent,?_⟩
  intro d hd
  obtain ⟨typ,opts,h,-,hcomplete⟩ := messages_conform (by decide) (by decide) (by decide) hr hd
  refine ⟨typ,opts,h,hcomplete.mpr fun _ => ⟨fun _ => ?_,fun _ => .inl rfl⟩⟩
  rw [hinfo]
  decide

end Messages

section Accounting

/-- The laws that the counters obey: the increments of some are matched by increments of
others, up to a level that the state of the exchange gives. -/
inductive Law
  | discovers
  | requests
  | sent
  | outcome
  | acks

namespace Law

def gains : Law → List Counter
  | .discovers => [.sendDiscovers]
  | .requests => [.sendRequests]
  | .sent => [.sendDiscovers,.sendRequests]
  | .outcome =>
    [.sendDiscoverErrors,.sendRequestErrors,.recvOfferErrors,.recvOfferAcquisitionTimeout,
      .recvOfferOptsDecodeErrors,.recvAckErrors,.recvAckAcquisitionTimeout,.recvAckOptsDecodeErrors,
      .recvAckAddrErrors,.recvAcks,.recvNaks,.recvNakErrors]
  | .acks => [.recvAcks]

def losses : Law → List Counter
  | .discovers => [.recvOfferTimeout,.recvOfferErrors,.recvOfferAcquisitionTimeout,.recvOffers]
  | .requests =>
    [.recvAckTimeout,.recvAckErrors,.recvAckAcquisitionTimeout,.recvAckOptsDecodeErrors,.recvAckAddrErrors,.recvAcks,
      .recvNaks,.recvNakErrors]
  | .sent | .outcome | .acks => []

def level : Law → Phase → List Datagram → ℕ
  | .discovers, p, _ => p.awaits .discover
  | .requests, p, _ => p.awaits .request
  | .sent, _, ds => ds.length
  | .outcome, p, _ => p.ended
  | .acks, p, _ => p.succeeded

end Law

def Balanced (s : Exchange) : Prop :=
  ∀ L : Law, s.stats.countP (· ∈ L.gains) = s.stats.countP (· ∈ L.losses) + L.level s.phase s.sent

/-- A step keeps the laws if what it counts makes up for the change of the levels. -/
lemma Balanced.move (h : Balanced s) (ks : List Counter) (hst : t.stats = s.stats ++ ks)
    (hlev : ∀ L : Law, L.level s.phase s.sent + ks.countP (· ∈ L.gains) =
      L.level t.phase t.sent + ks.countP (· ∈ L.losses)) : Balanced t := by
  intro L
  have hs := h L
  have ht := hlev L
  rw [hst,List.countP_append,List.countP_append]
  omega

lemma Balanced.replies (h : Balanced s) {l : Leg} {i : ℕ} {w : ℤ} {r : Reply} (hp : s.phase = .receiving l i w)
    (ht : Replies c s l r t) : Balanced t := by
  cases ht with
  | otherOffer => exact h.move [.recvOfferUnexpectedType] rfl (by rintro ⟨⟩ <;> rfl)
  | badOffer =>
    exact h.move [.recvOffers,.recvOfferOptsDecodeErrors] (by simp [Exchange.fail]) (by rw [hp]; rintro ⟨⟩ <;> rfl)
  | offer => exact h.move [.recvOffers] rfl (by rw [hp]; rintro ⟨⟩ <;> rfl)
  | otherAck => exact h.move [.recvAckUnexpectedType] rfl (by rintro ⟨⟩ <;> rfl)
  | badAck => exact h.move [.recvAckOptsDecodeErrors] rfl (by rw [hp]; rintro ⟨⟩ <;> rfl)
  | addrAck => exact h.move [.recvAckAddrErrors] rfl (by rw [hp]; rintro ⟨⟩ <;> rfl)
  | ack => exact h.move [.recvAcks] rfl (by rw [hp]; rintro ⟨⟩ <;> rfl)
  | nak => exact h.move [.recvNakErrors] rfl (by rw [hp]; rintro ⟨⟩ <;> rfl)
  | emptyNak => exact h.move [.recvNaks] rfl (by rw [hp]; rintro ⟨⟩ <;> rfl)

/-- The laws hold until the exchange panics. -/
lemma Balanced.step (h : Balanced s) {e : Event} (ht : step c s e = some t) :
    (∃ why, t.phase = .panicked why) ∨ Balanced t := by
  cases step_inv ht with
  | unknown | refused | stuck => exact .inl ⟨_,rfl⟩
  | opened hp =>
    refine .inr (h.move [] (by simp) ?_)
    rw [hp]
    rintro ⟨⟩ <;> rfl
  | unopened hp => exact .inr (h.move [] (by simp) (by rw [hp]; rintro ⟨⟩ <;> rfl))
  | @wrote l i r rnd t hp hsend =>
    cases hsend with
    | ok =>
      refine .inr (h.move [l.sent] rfl ?_)
      rw [hp]
      cases l <;> rintro ⟨⟩ <;> simp [Law.level,Law.gains,Law.losses,Leg.sent,Phase.awaits,Phase.ended,
        Phase.succeeded,Phase.result]
    | divide => exact .inl ⟨_,rfl⟩
    | blocked => exact .inl ⟨_,rfl⟩
    | failed =>
      refine .inr (h.move [l.sendErrors] rfl ?_)
      rw [hp]
      cases l <;> rintro ⟨⟩ <;> rfl
  | foreign => exact .inr h
  | @malformed l _ _ _ _ hp =>
    refine .inr (h.move [l.recvErrors] rfl ?_)
    rw [hp]
    cases l <;> rintro ⟨⟩ <;> rfl
  | reply hp _ hrep => exact .inr (h.replies hp hrep)
  | @readFails l _ _ hp =>
    refine .inr (h.move [l.recvErrors] rfl ?_)
    rw [hp]
    cases l <;> rintro ⟨⟩ <;> rfl
  | @done l _ _ hp =>
    refine .inr (h.move [l.acquisitionTimeout] rfl ?_)
    rw [hp]
    cases l <;> rintro ⟨⟩ <;> rfl
  | @timeout l _ _ hp =>
    refine .inr (h.move [l.timeout] rfl ?_)
    rw [hp]
    cases l <;> rintro ⟨⟩ <;> rfl
  | @returned r _ hp =>
    refine .inr (h.move [] (by simp) ?_)
    rw [hp]
    rintro ⟨⟩ <;> rfl

lemma step_panicked {why : Crash} (hp : s.phase = .panicked why) (e : Event) : step c s e = none := by
  simp only [step,hp]

/-- In every exchange that does not panic, the counters account for every message and every
outcome: each DISCOVER and each REQUEST sent is matched by one increment of a counter that
says what became of it, unless it is the one that is awaited; and an exchange that ends,
other than for want of an endpoint, increments exactly one of the counters of outcomes, which
is that of the ACKs if and only if there is a lease. -/
theorem counters_account {es : List Event} (hr : run (Exchange.step c) (start info xid) es = some s)
    (hp : ∀ why, s.phase ≠ .panicked why) (L : Law) :
    s.stats.countP (· ∈ L.gains) = s.stats.countP (· ∈ L.losses) + L.level s.phase s.sent := by
  have h : (∃ why, s.phase = .panicked why) ∨ Balanced s := by
    refine run_invariant (I := fun s => (∃ why, s.phase = .panicked why) ∨ Balanced s) ?_ (.inr ?_) hr
    · rintro s e t (⟨why,hw⟩ | hb) ht
      · rw [step_panicked hw] at ht
        cases ht
      · exact hb.step ht
    · rintro ⟨⟩ <;> rfl
  exact h.resolve_left (not_exists.mpr hp) L

theorem counters_account_renewed : ∃ es s,
    run (Exchange.step (newClient dotted [] [] [])) (start (leasedInfo .renewing) (fit 4 [])) es = some s ∧
      s.phase = .returned (.ok leaseCfg) ∧ s.stats.countP (· ∈ Law.outcome.gains) = 1 := by
  obtain ⟨s,hr,hp,-⟩ := run_renewal
  have h := counters_account hr (by rw [hp]; rintro _ ⟨⟩) .outcome
  refine ⟨_,s,hr,hp,?_⟩
  rw [hp] at h
  simpa [Law.losses,Law.level,Phase.ended,Phase.result] using h

end Accounting

end Exchange

end ArmoredWitness.Dhcp

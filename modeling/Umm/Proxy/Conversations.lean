import Umm.Proxy.Network

/-!
# Conversations of instances with the outside

While the pool of ports lasts, a TCP packet from outside is only ever given to an instance that has
itself sent a packet from the port the other one is for: `Traced` says where the mappings come from,
and no packet that arrives, for whatever port and on whatever core, can add one.

When packets are for ports that have been handed out, the caches agree with the shared map, and the
answer to a packet that went out reaches its sender, on whatever core it arrives.
-/

namespace Umm

open Foundations Umm.Frame

namespace PortState

variable {s : PortState} {a : PortStep}

/-- Every mapping comes from a translation that is in the log. -/
structure Traced (s : PortState) : Prop where
  /-- The ports of the pool are unmapped. -/
  fresh : s.root.PortsFresh
  /-- A cached pair is a pair of the master map, or the null mapping of a port. -/
  cached : ∀ core p e, (p, e) ∈ (s.proxies core).portMapCache →
    (p, e) ∈ s.root.masterPortMap ∨ e = nullPortMapping
  /-- A mapped port is in the log. -/
  sent : ∀ p e, (p, e) ∈ s.root.masterPortMap → (e, p) ∈ s.sent

theorem traced_init : Traced init where
  fresh := ProxyRoot.portsFresh_init
  cached := fun _ _ _ h => absurd h (Bimap.not_mem_empty _)
  sent := fun _ _ h => absurd h (Bimap.not_mem_empty _)

/-- What the root answers is a mapping, or the null mapping. -/
theorem mem_or_eq_null (s : PortState) (p : Port) :
    (p, s.root.externalPortLookup p) ∈ s.root.masterPortMap ∨
      s.root.externalPortLookup p = nullPortMapping := by
  by_cases hmapped : ∃ e, (p, e) ∈ s.root.masterPortMap
  · obtain ⟨e, he⟩ := hmapped
    rw [ProxyRoot.externalPortLookup_of_mem he]
    exact Or.inl he
  · exact Or.inr (ProxyRoot.externalPortLookup_of_forall_not_mem (not_exists.mp hmapped))

/-- A step that finds a port traces every mapping. -/
theorem Traced.perform (h : s.Traced) (hpool : s.PoolLasts a) : (s.perform a).Traced where
  fresh := portsFresh_perform h.fresh a
  cached := by
    intro core p e he
    rcases mem_cache_perform h.fresh hpool he with hold | ⟨nport, -, heq⟩ | hmapped
    · refine (h.cached core p e hold).imp_left fun hmem => mem_masterPortMap_perform hmem a
    · obtain ⟨rfl, rfl⟩ := Prod.mk.inj heq
      exact (s.mem_or_eq_null p).imp_left fun hmem => mem_masterPortMap_perform hmem a
    · exact Or.inl hmapped
  sent := by
    intro p e he
    rcases step_cases hpool with
      ⟨hroot, hsent⟩ | ⟨core, iport, q, -, -, hroot, hsent⟩ | ⟨e', q, ps, -, -, hroot, hsent⟩
    · rw [hsent]
      exact h.sent p e (hroot ▸ he)
    · rw [hsent]
      exact List.mem_cons_of_mem _ (h.sent p e (hroot ▸ he))
    · rw [hsent]
      rw [hroot] at he
      rcases Bimap.mem_insert.mp he with he | ⟨heq, -⟩
      · exact List.mem_cons_of_mem _ (h.sent p e he)
      · obtain ⟨rfl, rfl⟩ := Prod.mk.inj heq
        exact List.mem_cons_self

/-- A port that is translated to an endpoint on some core has been given to that endpoint. -/
theorem Traced.mem_sent_of_lookup (h : s.Traced) {core : UmiCore} {p : Port}
    (hne : s.lookup core p ≠ nullPortMapping) : (s.lookup core p, p) ∈ s.sent := by
  refine h.sent p _ ?_
  rcases s.lookup_cases core p with hcached | hroot
  · exact (h.cached core p _ hcached).resolve_right hne
  · rw [hroot] at hne ⊢
    exact (s.mem_or_eq_null p).resolve_right hne

end PortState

namespace NetState

variable {net : Net} {s : NetState} {as : List NetStep} {core : UmiCore} {buf : IOBuf}
  {pinfo : PacketInfo}

/-- No step of the run has to give a port away when there is none left. -/
def PoolLasts (net : Net) (as : List NetStep) : Prop :=
  AllSteps PortState.step PortState.PoolLasts PortState.init (as.filterMap (portCall net))

/-- Also, the packets that are looked up are for ports that have been handed out. -/
def PortsKnown (net : Net) (as : List NetStep) : Prop :=
  AllSteps PortState.step (fun s a => s.PoolLasts a ∧ s.KnownPort a) PortState.init
    (as.filterMap (portCall net))

/-- A run of packets keeps what the calls of the port machine keep. -/
theorem ports_invariant {C : PortState → PortStep → Prop} {I : PortState → Prop}
    (hinit : I PortState.init) (hstep : ∀ s a, C s a → I s → I (s.perform a))
    (hC : AllSteps PortState.step C PortState.init (as.filterMap (portCall net)))
    (hrun : run (step net) init as = some s) : I s.ports := by
  have hports := ports_run hrun
  rw [ports_init] at hports
  refine run_invariant (fun s a s' hCa hI hs => ?_) hinit hC hports
  exact PortState.step_eq_some.mp hs ▸ hstep s a hCa hI

/-- A mapping found by a core is that of the port machine. -/
theorem lookup_ports (s : NetState) (core : UmiCore) (p : Port) : s.ports.lookup core p =
    (UmProxy.externalPortmapLookup s.host.root (s.host.proxies core) p).1 := by
  change (UmProxy.externalPortmapLookup s.host.root (s.host.proxies core).portsOnly p).1 = _
  rw [UmProxy.externalPortmapLookup_portsOnly]

/-- A translation in the log of the port machine is that of a packet. -/
theorem mem_sent_ports {e : InternalPort} {p : Port} :
    (e, p) ∈ s.ports.sent ↔ ∃ x ∈ s.sent, x.endpoint = e ∧ x.nport = p := by
  simp [ports]

/-- The answer to a packet, as it is given to the instance that sent the packet. -/
def answer (net : Net) (s : NetState) (x : SentPacket) (buf : IOBuf) (pinfo : PacketInfo) :
    Except PacketFault Incoming :=
  match (s.host.managers x.core).getInstance x.umi with
  | none => .ok (PacketState.natConnectionReset net
      (PacketState.withClientAddresses net buf.first))
  | some umi => (PacketState.setNeededChecksum net
      (buf.withFirst (PacketState.withNatDestination net (srcPort x.frame.first) buf.first))
        pinfo).map (Incoming.delivered umi)

/-- What becomes of a TCP packet from outside, by the mapping that the core finds for its port. -/
theorem processIncoming_fst (net : Net) (s : NetState) (core : UmiCore) (pinfo : PacketInfo)
    (hbuf : IsExternalTcp buf) :
    ((s.host.on core).processIncoming net core buf pinfo).map Prod.fst =
      let mapping := s.ports.lookup core (dstPort buf.first)
      let b := PacketState.withClientAddresses net buf.first
      if mapping = nullPortMapping then .ok (PacketState.natConnectionReset net b)
      else if core ≠ mapping.core then
        if mapping.core < net.cpuCount then .ok (.forwarded mapping.core (buf.withFirst b) pinfo)
        else .error .badCore
      else
        match (s.host.managers core).getInstance mapping.id with
        | none => .ok (PacketState.natConnectionReset net b)
        | some umi => (PacketState.setNeededChecksum net
            (buf.withFirst (PacketState.withNatDestination net mapping.port buf.first)) pinfo).map
              (Incoming.delivered umi) := by
  have hpre : PacketState.natPreprocessIn net buf.first =
      .ok (PacketState.withClientAddresses net buf.first) := by
    refine PacketState.natPreprocessIn_eq_ok.mpr ⟨Nat.le_trans (by decide) hbuf.headers, ?_⟩
    rw [if_neg (by rw [hbuf.ip]; decide), if_pos hbuf.ip]
    exact ⟨Nat.le_trans (by decide) hbuf.headers, rfl⟩
  have hport := (hbuf.preprocessed hpre).2
  rw [hbuf.processIncoming_eq hpre, PacketState.processExternalTcp_fst]
  simp only [IOBuf.first_withFirst, hport, lookup_ports, IOBuf.withFirst_withFirst]
  rfl

/-- A TCP packet from outside, for whatever port and on whatever core, is reset, or a packet has been sent
from that port.  In the second case it may be reset all the same, for a port that was looked up before;
otherwise it is passed on to the core of the sender, and there it is given to the sender, with the port
the sender used, if the sender is still known. -/
theorem answers_only_senders (hpool : PoolLasts net as) (hrun : run (step net) init as = some s)
    (hbuf : IsExternalTcp buf) {r : Incoming} {t : PacketState}
    (h : (s.host.on core).processIncoming net core buf pinfo = .ok (r, t)) :
    r = PacketState.natConnectionReset net (PacketState.withClientAddresses net buf.first) ∨
    ∃ x ∈ s.sent, x.nport = dstPort buf.first ∧
      (x.core ≠ core ∧ r = .forwarded x.core
          (buf.withFirst (PacketState.withClientAddresses net buf.first)) pinfo ∨
        x.core = core ∧ .ok r = answer net s x buf pinfo) := by
  have htraced : s.ports.Traced := ports_invariant PortState.traced_init
    (fun s a hpool hs => hs.perform hpool) hpool hrun
  have hfst := processIncoming_fst net s core pinfo hbuf
  rw [h] at hfst
  by_cases hnull : s.ports.lookup core (dstPort buf.first) = nullPortMapping
  · simp only [if_pos hnull] at hfst
    exact Or.inl (Except.ok.inj hfst)
  obtain ⟨x, hx, hendpoint, hnport⟩ := mem_sent_ports.mp (htraced.mem_sent_of_lookup hnull)
  refine Or.inr ⟨x, hx, hnport, ?_⟩
  simp only [if_neg hnull] at hfst
  simp only [← hendpoint] at hfst
  change Except.ok r = (if core ≠ x.core then _ else _) at hfst
  by_cases hcore : core = x.core
  · rw [if_neg (not_not.mpr hcore)] at hfst
    refine Or.inr ⟨hcore.symm, hfst.trans ?_⟩
    rw [answer, ← hcore]
    rfl
  · rw [if_pos hcore] at hfst
    split_ifs at hfst
    exact Or.inl ⟨Ne.symm hcore, Except.ok.inj hfst⟩

/-- A packet goes out as its sender wrote it, but for the addresses of the host. -/
def IsMasked (net : Net) (x : SentPacket) : Prop :=
  x.packet = (x.frame.withFirst
    (PacketState.withNatSource net x.nport x.frame.first)).advance ethStop

theorem isMasked_step {s' : NetState} {a : NetStep} (hs : ∀ x ∈ s.sent, IsMasked net x)
    (h : step net s a = some s') : ∀ x ∈ s'.sent, IsMasked net x := by
  cases a with
  | processOutgoing core buf =>
    obtain ⟨r, t, hr, rfl⟩ := step_processOutgoing.mp h
    intro x hx
    rcases List.mem_append.mp hx with hnew | hold
    · by_cases hb : IsOutboundTcp buf.first
      · obtain ⟨hlen, -, -, _, _, _, rfl⟩ := PacketState.processOutgoing_ports hb hr
        rw [logged, if_pos hb] at hnew
        obtain rfl := List.mem_singleton.mp hnew
        rw [IsMasked, nport_withNatSource hlen]
      · cases r <;> simp [logged, hb] at hnew
    · exact hs x hold
  | processIncoming core buf pinfo =>
    obtain ⟨r, t, -, rfl⟩ := step_processIncoming.mp h
    exact hs
  | _ =>
    obtain rfl := Option.some.inj h
    exact hs

/-- Over any run in which the pool lasts and packets are looked up only for ports that have been
handed out, a packet goes out with a port that stands for its endpoint alone, and is otherwise as it
was written but for the address of the host.  A TCP packet from outside for that port, on whatever
core it arrives, is given to the sender with the port the sender used, or reset when the sender is
gone. -/
theorem answers_reach_senders (hports : PortsKnown net as)
    (hrun : run (step net) init as = some s) :
    (∀ x ∈ s.sent, ∀ y ∈ s.sent, x.nport = y.nport ↔ x.endpoint = y.endpoint) ∧
    ∀ x ∈ s.sent, IsMasked net x ∧ (x.umi ≠ nullId → x.core < net.cpuCount →
      ∀ core buf pinfo hops, IsExternalTcp buf → dstPort buf.first = x.nport →
        (PacketHost.deliver net (hops + 1) s.host core buf pinfo).map Prod.fst =
          answer net s x buf pinfo) := by
  have hcoherent : s.ports.Coherent := ports_invariant PortState.coherent_init
    (fun s a hC hs => hs.perform hC.1 hC.2) hports hrun
  have hmasked : ∀ x ∈ s.sent, IsMasked net x := by
    refine run_invariant' (I := fun s => ∀ x ∈ s.sent, IsMasked net x)
      (fun s a s' hs h => isMasked_step hs h) (fun x hx => ?_) hrun
    exact absurd hx List.not_mem_nil
  have hmapped : ∀ x ∈ s.sent, (x.nport, x.endpoint) ∈ s.host.root.masterPortMap := fun x hx =>
    hcoherent.sent x.endpoint x.nport (mem_sent_ports.mpr ⟨x, hx, rfl, rfl⟩)
  constructor
  · intro x hx y hy
    constructor
    · intro hnport
      exact Bimap.eq_right (hmapped x hx) (hnport ▸ hmapped y hy)
    · intro hendpoint
      exact Bimap.eq_left (hmapped x hx) (hendpoint ▸ hmapped y hy)
  · intro x hx
    refine ⟨hmasked x hx, fun humi hcore core buf pinfo hops hbuf hport => ?_⟩
    have hmaps : s.host.MapsPort net (dstPort buf.first) x.endpoint :=
      ⟨fun core y hy => hcoherent.cached core y hy, hport ▸ hmapped x hx, hcore⟩
    have hnull : x.endpoint ≠ nullPortMapping := fun heq => humi (congrArg InternalPort.id heq)
    have hlookup : s.ports.lookup x.core (dstPort buf.first) = x.endpoint :=
      hcoherent.lookup_eq (hport ▸ hmapped x hx) x.core
    have hfst := processIncoming_fst net s x.core pinfo hbuf
    simp only [hlookup, if_neg hnull] at hfst
    rw [hmaps.deliver_eq hbuf hops]
    have hhere : ¬ x.core ≠ x.endpoint.core := not_not.mpr rfl
    refine hfst.trans ?_
    rw [if_neg hhere]
    rfl

/-! ## A conversation -/

/-- The host with the address 10.0.0.2, on a machine with two cores. -/
def twoCores : Net :=
  Net.onesComplement ⟨[10, 0, 0, 2], rfl⟩ 2

/-- A byte that instance 5 sends from port 80, to port 8080 of 10.0.0.9. -/
def question : IOBuf :=
  [List.replicate 12 1 ++ [0x08, 0x00, 0x45, 0, 0, 41, 0, 0, 0, 0, 64, 6, 0, 0, 169, 254, 1, 0,
    10, 0, 0, 9, 0, 80, 0x1f, 0x90, 0, 0, 0, 0, 0, 0, 0, 0, 0x50, 0x10, 0, 0, 0, 0, 0, 0, 7]]

/-- A byte from there, for the port 256. -/
def reply : IOBuf :=
  [List.replicate 12 1 ++ [0x08, 0x00, 0x45, 0, 0, 41, 0, 0, 0, 0, 64, 6, 0, 0, 10, 0, 0, 9,
    10, 0, 0, 2, 0x1f, 0x90, 1, 0, 0, 0, 0, 0, 0, 0, 0, 0, 0x50, 0x10, 0, 0, 0, 0, 0, 0, 8]]

/-- Instance 5 is loaded on core 1 and asks. -/
def asking : List NetStep :=
  [.setActiveInstance 1 5,
    .manage 1 { Core.init with status := .idle, activeUmi := some 5, proxyUmi := 5 },
    .processOutgoing 1 question]

theorem portCalls_asking : asking.filterMap (portCall twoCores) =
    [.setActiveInstance 1 5, .swizzlePortOut 1 80] := by
  have hcall : portCall twoCores (.processOutgoing 1 question) = some (.swizzlePortOut 1 80) := by
    rw [portCall, if_pos (by decide)]
    exact congrArg some (congrArg _ (by decide))
  simp only [asking, List.filterMap_cons, hcall, List.filterMap_nil]
  rfl

/-- The run is one of ports that are known, and the question goes out from port 256. -/
theorem asking_runs : PortsKnown twoCores asking ∧ ∃ s x, run (step twoCores) init asking = some s ∧
    x ∈ s.sent ∧ x.endpoint = ⟨5, 1, 80⟩ ∧ x.nport = 256 ∧
      (s.host.managers 1).getInstance 5 = some 5 := by
  obtain ⟨ps, hps⟩ := ProxyRoot.portInterval_eq_cons
  have hinit : PortState.init.root.portSet = 256 :: ps := ProxyRoot.portSet_init.trans hps
  have hpool : (PortState.init.perform (.setActiveInstance 1 5)).root.portSet = 256 :: ps := hinit
  obtain ⟨-, hsent⟩ := PortState.perform_of_allocates (e := ⟨5, 1, 80⟩)
    (a := .swizzlePortOut 1 80) ⟨1, 80, rfl, rfl, rfl, rfl⟩ hpool
  constructor
  · rw [PortsKnown, portCalls_asking]
    simp only [PortState.allSteps_step_cons]
    exact ⟨⟨PortState.poolLasts_of_eq_cons hinit _, trivial⟩,
      ⟨PortState.poolLasts_of_eq_cons hpool _, trivial⟩, trivial⟩
  -- the state before the packet goes out
  obtain ⟨s, hs⟩ : ∃ s : NetState, s =
      { init.setProxy 1 (UmProxy.init.setActiveInstance 5) with
        host.managers := Function.update (fun _ => Core.init) 1
          { Core.init with status := .idle, activeUmi := some 5, proxyUmi := 5 } } := ⟨_, rfl⟩
  have hactive : (s.host.on 1).manager.getInstance (s.host.on 1).proxy.umiId = some 5 := by
    rw [hs]
    rfl
  obtain ⟨r, t, hr, hmanager⟩ : ∃ r t, (s.host.on 1).processOutgoing twoCores false 1 question =
      .ok (r, t) ∧ t.manager = if 0 < payloadLen question.first
        then (s.host.on 1).manager.setUmi 5 ((s.host.on 1).manager.umis 5).setInactive
        else (s.host.on 1).manager :=
    PacketState.processOutgoing_sent (by decide) (by decide) (by decide) (by decide) hactive
  obtain ⟨u, hu⟩ : ∃ u : NetState,
    u = { host := s.host.put 1 t, sent := s.logged 1 question r ++ s.sent } := ⟨_, rfl⟩
  have hrun : run (step twoCores) init asking = some u := by
    have hset : step twoCores init (.setActiveInstance 1 5) =
        some (init.setProxy 1 (UmProxy.init.setActiveInstance 5)) := rfl
    refine run_cons_eq_some.mpr ⟨_, hset, run_cons_eq_some.mpr ⟨s, ?_, run_cons_eq_some.mpr
      ⟨u, step_processOutgoing.mpr ⟨r, t, hr, hu⟩, run_nil u⟩⟩⟩
    rw [hs]
    rfl
  have hports := ports_run hrun
  rw [ports_init, portCalls_asking] at hports
  have hmem : ((⟨5, 1, 80⟩, 256) : InternalPort × Port) ∈ u.ports.sent := by
    have hlast : _ = u.ports := Option.some.inj hports
    rw [← hlast, hsent]
    exact List.mem_cons_self
  obtain ⟨x, hx, hendpoint, hnport⟩ := mem_sent_ports.mp hmem
  refine ⟨u, x, hrun, hx, hendpoint, hnport, ?_⟩
  rw [hu]
  change ((Function.update s.host.managers 1 t.manager) 1).getInstance 5 = some 5
  rw [Function.update_self, hmanager, if_pos (by decide)]
  rw [hs]
  rfl

theorem isExternalTcp_reply : IsExternalTcp reply :=
  ⟨by decide, by decide, by decide, by decide⟩

/-- The reply is given to instance 5 when it arrives on its core. -/
theorem answers_only_senders_asking : ∃ s r t, run (step twoCores) init asking = some s ∧
    (s.host.on 1).processIncoming twoCores 1 reply {} = .ok (r, t) ∧
    ∃ x ∈ s.sent, x.nport = 256 ∧ x.core = 1 ∧ .ok r = answer twoCores s x reply {} := by
  obtain ⟨hports, s, x, hrun, hx, hendpoint, hnport, hget⟩ := asking_runs
  have hcoherent : s.ports.Coherent := ports_invariant PortState.coherent_init
    (fun s a hC hs => hs.perform hC.1 hC.2) hports hrun
  have hport : dstPort reply.first = 256 := by decide
  have hlookup : s.ports.lookup 1 256 = ⟨5, 1, 80⟩ :=
    hcoherent.lookup_eq (hcoherent.sent _ _ (mem_sent_ports.mpr ⟨x, hx, hendpoint, hnport⟩)) 1
  have hfst := processIncoming_fst twoCores s 1 {} isExternalTcp_reply
  simp only [hport, hlookup, hget] at hfst
  cases hres : (s.host.on 1).processIncoming twoCores 1 reply {} with
  | error e =>
    rw [hres] at hfst
    cases hfst
  | ok p =>
    obtain ⟨r, t⟩ := p
    rw [hres] at hfst
    have hr : r = .delivered 5 _ := Except.ok.inj hfst
    have hpool : PoolLasts twoCores asking := hports.mono fun _ _ h => h.1
    refine ⟨s, r, t, hrun, hres, ?_⟩
    rcases answers_only_senders hpool hrun isExternalTcp_reply hres with
      hreset | ⟨y, hy, hnport, ⟨-, hforwarded⟩ | ⟨hcore, hanswer⟩⟩
    · exact absurd (hreset.symm.trans hr) (PacketState.natConnectionReset_ne_delivered _ _)
    · cases hforwarded.symm.trans hr
    · exact ⟨y, hy, hnport.trans hport, hcore, hanswer⟩

/-- The reply is given to instance 5 when it arrives on the other core. -/
theorem answers_reach_senders_asking : ∃ s, run (step twoCores) init asking = some s ∧
    (PacketHost.deliver twoCores 1 s.host 0 reply {}).map Prod.fst = .ok (.delivered 5
      (reply.withFirst (PacketState.withNatDestination twoCores 80 reply.first))) := by
  obtain ⟨hports, s, x, hrun, hx, hendpoint, hnport, hget⟩ := asking_runs
  have hport : dstPort reply.first = 256 := by decide
  obtain ⟨hiport, humi, hcore⟩ : srcPort x.frame.first = 80 ∧ x.umi = 5 ∧ x.core = 1 :=
    ⟨congrArg InternalPort.port hendpoint, congrArg InternalPort.id hendpoint,
      congrArg InternalPort.core hendpoint⟩
  have hanswer := ((answers_reach_senders hports hrun).2 x hx).2 (by rw [humi]; decide)
    (by rw [hcore]; decide) 0 reply {} 0 isExternalTcp_reply (hport.trans hnport.symm)
  refine ⟨s, hrun, hanswer.trans ?_⟩
  rw [answer, humi, hcore, hget, hiport]
  rfl

end NetState

end Umm

import Umm.Proxy.Preprocess

/-!
# Packets that arrive on the wrong core

A TCP packet from outside may arrive on any core; `ProcessIncoming` spawns itself on the core that
the port of the packet is mapped to.  The packet that is passed on has been preprocessed, and it is
preprocessed again there.

As long as the caches are parts of the master map, both cores find the same mapping, so that there is
one hop at most, and the detour cannot be told from the outcome.
-/

namespace Umm

open Foundations Umm.Frame

/-- The proxies and managers of all cores. -/
structure PacketHost where
  /-- The shared port map. -/
  root : ProxyRoot
  /-- The proxy of each core. -/
  proxies : UmiCore → UmProxy
  /-- The manager of each core. -/
  managers : UmiCore → Core

namespace PacketHost

/-- What the proxy of a core works on. -/
def on (h : PacketHost) (core : UmiCore) : PacketState :=
  ⟨h.root, h.proxies core, h.managers core⟩

/-- The state of a core after a call. -/
def put (h : PacketHost) (core : UmiCore) (s : PacketState) : PacketHost where
  root := s.root
  proxies := Function.update h.proxies core s.proxy
  managers := Function.update h.managers core s.manager

/-- The packet arrives on `core` and is processed there, and on the cores it is forwarded to, for
`hops` times at most. -/
def deliver (net : Net) : ℕ → PacketHost → UmiCore → IOBuf → PacketInfo →
    Except PacketFault (Incoming × PacketHost)
  | 0, h, core, buf, pinfo => do
    let (r, s) ← (h.on core).processIncoming net core buf pinfo
    .ok (r, h.put core s)
  | hops + 1, h, core, buf, pinfo => do
    let (r, s) ← (h.on core).processIncoming net core buf pinfo
    match r with
    | .forwarded core' buf' pinfo' => deliver net hops (h.put core s) core' buf' pinfo'
    | r => .ok (r, h.put core s)

/-- The caches are parts of the master map, and `nport` is mapped to `mapping` on a core that
exists. -/
structure MapsPort (net : Net) (h : PacketHost) (nport : Port) (mapping : InternalPort) : Prop where
  /-- A cached mapping is in the master map. -/
  cached : ∀ core y, y ∈ (h.proxies core).portMapCache → y ∈ h.root.masterPortMap
  /-- The port is mapped. -/
  mapped : (nport, mapping) ∈ h.root.masterPortMap
  /-- The core is one of the machine. -/
  core_lt : mapping.core < net.cpuCount

end PacketHost

/-- The buffer is a TCP packet from outside: the three headers are in its first buffer. -/
structure IsExternalTcp (buf : IOBuf) : Prop where
  /-- The headers are in the buffer. -/
  headers : tcpStop ≤ buf.first.length
  /-- The frame is of type IP. -/
  ip : ethtype buf.first = kEthTypeIp
  /-- The protocol is TCP. -/
  tcp : proto buf.first = kIpProtoTCP
  /-- The source is not the host. -/
  external : PacketState.internalSource buf.first = false

namespace PacketState

variable {net : Net} {core : UmiCore} {s : PacketState} {buf : IOBuf} {pinfo : PacketInfo}

/-- The call is the one on the preprocessed packet. -/
theorem processIncoming_eq {b : List UInt8} (h : natPreprocessIn net buf.first = .ok b) :
    s.processIncoming net core buf pinfo =
      s.processPreprocessed net core (buf.withFirst b) pinfo := by
  unfold processIncoming
  rw [h]
  rfl

/-- A packet may be preprocessed before. -/
theorem processIncoming_withFirst {b : List UInt8} (h : natPreprocessIn net buf.first = .ok b) :
    s.processIncoming net core (buf.withFirst b) pinfo = s.processIncoming net core buf pinfo := by
  have hidem : natPreprocessIn net (buf.withFirst b).first = .ok b := natPreprocessIn_idem h
  rw [processIncoming_eq hidem, processIncoming_eq h, IOBuf.withFirst_withFirst]

theorem postMasq_not_forwarded {target : UmiId} {core' : UmiCore} {buf' : IOBuf}
    {pinfo' : PacketInfo} {s' : PacketState} :
    s.postMasq net target buf pinfo ≠ .ok (.forwarded core' buf' pinfo', s') := by
  intro h
  obtain ⟨buf, -, h⟩ := bind_eq_ok.mp h
  cases hget : s.manager.getInstance target <;> simp [hget] at h

theorem natConnectionReset_ne_forwarded {b : List UInt8} (core' : UmiCore) (buf' : IOBuf)
    (pinfo' : PacketInfo) : natConnectionReset net b ≠ .forwarded core' buf' pinfo' := by
  unfold natConnectionReset
  split_ifs <;> simp

/-- A packet for an instance of this core is not forwarded. -/
theorem processMapped_not_forwarded {target : UmiId} {core' : UmiCore} {buf' : IOBuf}
    {pinfo' : PacketInfo} {s' : PacketState} :
    s.processMapped net target buf pinfo ≠ .ok (.forwarded core' buf' pinfo', s') := by
  intro h
  unfold processMapped at h
  cases hget : s.manager.getInstance target with
  | none =>
    simp only [hget] at h
    exact natConnectionReset_ne_forwarded _ _ _ (Prod.mk.inj (Except.ok.inj h)).1
  | some umi =>
    have hmanager : (s.natMasqueradeIn buf.first).2.manager = s.manager := rfl
    simp only [hget, hmanager] at h
    split_ifs at h
    · exact postMasq_not_forwarded h
    · exact postMasq_not_forwarded h

/-- The fields of an IP packet that preprocessing leaves as they are. -/
theorem read_of_natPreprocessIn_ip {b b' : List UInt8} (hip : ethtype b = kEthTypeIp)
    (h : natPreprocessIn net b = .ok b') {g : Field} (heth : ethDst.Apart g)
    (hdst : ipDst.Apart g) (hchksum : ipChksum.Apart g) : g.read b' = g.read b := by
  refine (natPreprocessIn_keeps h).2 g heth (fun harp => ?_) fun _ => ⟨hdst, hchksum⟩
  exact absurd (harp.symm.trans hip) (by decide)

end PacketState

section External

variable {net : Net} {core : UmiCore} {s : PacketState} {buf : IOBuf} {pinfo : PacketInfo}
  {b : List UInt8}

/-- A TCP packet from outside is still one once it has been preprocessed, and for the same port. -/
theorem IsExternalTcp.preprocessed (h : IsExternalTcp buf)
    (hpre : PacketState.natPreprocessIn net buf.first = .ok b) :
    IsExternalTcp (buf.withFirst b) ∧ dstPort b = dstPort buf.first := by
  refine ⟨⟨?_, ?_, ?_, ?_⟩, ?_⟩
  · exact h.headers.trans_eq (PacketState.natPreprocessIn_keeps hpre).1.symm
  · exact (PacketState.ethtype_natPreprocessIn hpre).trans h.ip
  · exact (PacketState.proto_natPreprocessIn hpre).trans h.tcp
  · exact (PacketState.internalSource_natPreprocessIn hpre).trans h.external
  · rw [dstPort, PacketState.read_of_natPreprocessIn_ip h.ip hpre (by decide) (by decide)
      (by decide), dstPort]

/-- What `ProcessIncoming` does with a TCP packet from outside. -/
theorem IsExternalTcp.processIncoming_eq (h : IsExternalTcp buf)
    (hpre : PacketState.natPreprocessIn net buf.first = .ok b) :
    s.processIncoming net core buf pinfo =
      s.processExternalTcp net core (buf.withFirst b) pinfo := by
  have hb := (h.preprocessed hpre).1
  rw [PacketState.processIncoming_eq hpre]
  unfold PacketState.processPreprocessed
  rw [if_pos ⟨hb.headers, hb.tcp⟩, hb.external]
  rfl

end External

namespace PacketHost

variable {net : Net} {h h' : PacketHost} {core : UmiCore} {buf : IOBuf} {pinfo : PacketInfo}
  {nport : Port} {mapping : InternalPort} {b : List UInt8}

/-- Every core finds the mapping. -/
theorem MapsPort.lookup_eq (hmaps : h.MapsPort net nport mapping) (core : UmiCore) :
    (UmProxy.externalPortmapLookup h.root (h.proxies core) nport).1 = mapping := by
  cases hcached : (h.proxies core).portMapCache.findLeft nport with
  | some e =>
    have he := Bimap.findLeft_eq_some.mp hcached
    rw [UmProxy.externalPortmapLookup_of_mem he]
    exact Bimap.eq_right (hmaps.cached core _ he) hmaps.mapped
  | none =>
    rw [UmProxy.externalPortmapLookup_of_findLeft_eq_none hcached]
    exact ProxyRoot.externalPortLookup_of_mem hmaps.mapped

/-- What the lookup of a port on `core` leaves. -/
def lookedUp (h : PacketHost) (core : UmiCore) (nport : Port) : PacketState :=
  ⟨h.root, (UmProxy.externalPortmapLookup h.root (h.proxies core) nport).2, h.managers core⟩

/-- A TCP packet from outside is reset, forwarded, or for an instance of this core. -/
theorem MapsPort.processIncoming_eq (hmaps : h.MapsPort net (dstPort buf.first) mapping)
    (hbuf : IsExternalTcp buf) (hpre : PacketState.natPreprocessIn net buf.first = .ok b) :
    (h.on core).processIncoming net core buf pinfo =
      if mapping = nullPortMapping then
        .ok (PacketState.natConnectionReset net b, h.lookedUp core (dstPort buf.first))
      else if core ≠ mapping.core then
        .ok (.forwarded mapping.core (buf.withFirst b) pinfo, h.lookedUp core (dstPort buf.first))
      else (h.lookedUp core (dstPort buf.first)).processMapped net mapping.id (buf.withFirst b)
        pinfo := by
  have hport : dstPort (buf.withFirst b).first = dstPort buf.first := (hbuf.preprocessed hpre).2
  rw [hbuf.processIncoming_eq hpre]
  unfold PacketState.processExternalTcp
  simp only [on, hport, hmaps.lookup_eq core]
  rw [if_pos hmaps.core_lt]
  rfl

/-- A TCP packet from outside is not forwarded from the core it is mapped to. -/
theorem MapsPort.not_forwarded (hmaps : h.MapsPort net (dstPort buf.first) mapping)
    (hbuf : IsExternalTcp buf) (core' : UmiCore) (buf' : IOBuf) (pinfo' : PacketInfo)
    (s : PacketState) : (h.on mapping.core).processIncoming net mapping.core buf pinfo ≠
      .ok (.forwarded core' buf' pinfo', s) := by
  obtain ⟨b, hpre⟩ := PacketState.natPreprocessIn_returns net hbuf.headers
  rw [hmaps.processIncoming_eq hbuf hpre]
  intro heq
  split_ifs at heq with hnull hcore
  · exact PacketState.natConnectionReset_ne_forwarded _ _ _ (Prod.mk.inj (Except.ok.inj heq)).1
  · exact absurd rfl hcore
  · exact PacketState.processMapped_not_forwarded heq

/-- A packet that is not forwarded takes no hop, however many are allowed. -/
theorem deliver_of_not_forwarded (hstay : ∀ core' buf' pinfo' s,
    (h.on core).processIncoming net core buf pinfo ≠ .ok (.forwarded core' buf' pinfo', s))
    (hops : ℕ) : (deliver net hops h core buf pinfo).map Prod.fst =
      ((h.on core).processIncoming net core buf pinfo).map Prod.fst := by
  cases hres : (h.on core).processIncoming net core buf pinfo with
  | error e => cases hops <;> simp [deliver, hres, bind, Except.bind, Except.map]
  | ok r =>
    obtain ⟨r, s⟩ := r
    cases r with
    | forwarded core' buf' pinfo' => exact absurd hres (hstay core' buf' pinfo' s)
    | _ => cases hops <;> simp [deliver, hres, bind, Except.bind, Except.map]

/-- A packet that is forwarded is delivered from there. -/
theorem deliver_of_forwarded {core' : UmiCore} {buf' : IOBuf} {pinfo' : PacketInfo}
    {s : PacketState} (hres : (h.on core).processIncoming net core buf pinfo =
      .ok (.forwarded core' buf' pinfo', s)) (hops : ℕ) :
    deliver net (hops + 1) h core buf pinfo = deliver net hops (h.put core s) core' buf' pinfo' := by
  rw [deliver, hres]
  rfl

/-- The outcome of a TCP packet from outside is the one on the core that it is mapped to. -/
theorem MapsPort.deliver_eq (hmaps : h.MapsPort net (dstPort buf.first) mapping)
    (hbuf : IsExternalTcp buf) (hops : ℕ) : (deliver net (hops + 1) h core buf pinfo).map Prod.fst =
      ((h.on mapping.core).processIncoming net mapping.core buf pinfo).map Prod.fst := by
  obtain ⟨b, hpre⟩ := PacketState.natPreprocessIn_returns net hbuf.headers
  by_cases hcore : core = mapping.core
  · rw [hcore]
    exact deliver_of_not_forwarded (hmaps.not_forwarded hbuf) _
  have hres : (h.on core).processIncoming net core buf pinfo = _ :=
    hmaps.processIncoming_eq hbuf hpre
  have hdirect : (h.on mapping.core).processIncoming net mapping.core buf pinfo = _ :=
    hmaps.processIncoming_eq hbuf hpre
  by_cases hnull : mapping = nullPortMapping
  · rw [if_pos hnull] at hres hdirect
    rw [deliver_of_not_forwarded (fun core' buf' pinfo' s heq => ?_) (hops + 1), hres, hdirect]
    · rfl
    · rw [hres] at heq
      exact PacketState.natConnectionReset_ne_forwarded _ _ _
        (Prod.mk.inj (Except.ok.inj heq)).1
  · rw [if_neg hnull, if_pos hcore] at hres
    have hon : (h.put core (h.lookedUp core (dstPort buf.first))).on mapping.core =
        h.on mapping.core := by
      simp only [on, put, lookedUp, Function.update_of_ne (Ne.symm hcore)]
    have hsame : ((h.put core (h.lookedUp core (dstPort buf.first))).on mapping.core).processIncoming
        net mapping.core (buf.withFirst b) pinfo =
        (h.on mapping.core).processIncoming net mapping.core buf pinfo := by
      rw [hon, PacketState.processIncoming_withFirst hpre]
    rw [deliver_of_forwarded hres, deliver_of_not_forwarded (fun core' buf' pinfo' s heq => ?_) hops,
      hsame]
    exact hmaps.not_forwarded hbuf core' buf' pinfo' s (hsame ▸ heq)

/-- A TCP packet from outside for a mapped port, on any core, with the caches parts of the master
map.  However many hops are allowed, as long as one is, the outcome is not another hop, and it is the
outcome of a packet that arrives on the core of the mapping.  If that core is another one and its
turn comes later, when the machine is in any other state `h'` in which the port is mapped so, the
outcome is the one of a packet that arrives there then. -/
theorem redirect_transparent (hmaps : h.MapsPort net (dstPort buf.first) mapping)
    (hbuf : IsExternalTcp buf) (hops : ℕ) :
    (deliver net (hops + 1) h core buf pinfo).map Prod.fst =
      (deliver net 0 h mapping.core buf pinfo).map Prod.fst ∧
    (∀ core' buf' pinfo', (deliver net (hops + 1) h core buf pinfo).map Prod.fst ≠
      .ok (.forwarded core' buf' pinfo')) ∧
    ∀ core' buf' pinfo' s, (h.on core).processIncoming net core buf pinfo =
        .ok (.forwarded core' buf' pinfo', s) →
      core' = mapping.core ∧ pinfo' = pinfo ∧
        ∀ h' : PacketHost, h'.MapsPort net (dstPort buf.first) mapping →
          (h'.on core').processIncoming net core' buf' pinfo' =
            (h'.on core').processIncoming net core' buf pinfo ∧
          ∀ core'' buf'' pinfo'' s', (h'.on core').processIncoming net core' buf' pinfo' ≠
            .ok (.forwarded core'' buf'' pinfo'', s') := by
  have hstay : ∀ core' buf' pinfo' s,
      (h.on mapping.core).processIncoming net mapping.core buf pinfo ≠
        .ok (.forwarded core' buf' pinfo', s) := hmaps.not_forwarded hbuf
  refine ⟨?_, fun core' buf' pinfo' heq => ?_, fun core' buf' pinfo' s hres => ?_⟩
  · rw [hmaps.deliver_eq hbuf, deliver_of_not_forwarded hstay]
  · rw [hmaps.deliver_eq hbuf] at heq
    cases hres : (h.on mapping.core).processIncoming net mapping.core buf pinfo with
    | error e => simp [hres, Except.map] at heq
    | ok r =>
      simp only [hres, Except.map, Except.ok.injEq] at heq
      exact hstay core' buf' pinfo' r.2 (by rw [hres, ← heq])
  · obtain ⟨b, hpre⟩ := PacketState.natPreprocessIn_returns net hbuf.headers
    rw [hmaps.processIncoming_eq hbuf hpre] at hres
    split_ifs at hres with hnull hcore
    · exact absurd (Prod.mk.inj (Except.ok.inj hres)).1
        (PacketState.natConnectionReset_ne_forwarded _ _ _)
    · simp only [Except.ok.injEq, Prod.mk.injEq, Incoming.forwarded.injEq] at hres
      obtain ⟨⟨rfl, rfl, rfl⟩, -⟩ := hres
      refine ⟨rfl, rfl, fun h' hmaps' => ?_⟩
      refine ⟨PacketState.processIncoming_withFirst hpre, fun core'' buf'' pinfo'' s' => ?_⟩
      rw [PacketState.processIncoming_withFirst hpre]
      exact hmaps'.not_forwarded hbuf core'' buf'' pinfo'' s'
    · exact absurd hres PacketState.processMapped_not_forwarded

/-- Instance 5 of core 1 has the port 300 for its port 80; a packet for port 300 arrives on core 0. -/
theorem redirect_transparent_core0 : ∃ h : PacketHost, ∃ buf : IOBuf,
    (deliver (Net.onesComplement ⟨[10, 0, 0, 2], rfl⟩ 2) 1 h 0 buf {}).map Prod.fst =
      (deliver (Net.onesComplement ⟨[10, 0, 0, 2], rfl⟩ 2) 0 h 1 buf {}).map Prod.fst ∧
    ∃ buf', (deliver (Net.onesComplement ⟨[10, 0, 0, 2], rfl⟩ 2) 0 h 1 buf {}).map Prod.fst =
      .ok (.delivered 5 buf') := by
  obtain ⟨h, hh⟩ : ∃ h : PacketHost, h = ⟨⟨[], Bimap.empty.insert 300 ⟨5, 1, 80⟩⟩,
    fun _ => UmProxy.init,
    fun _ => { Core.init with status := .idle, activeUmi := some 5 }⟩ := ⟨_, rfl⟩
  obtain ⟨frame, hframe⟩ : ∃ frame : List UInt8, frame = List.replicate 12 1 ++
    [0x08, 0x00, 0x45, 0, 0, 41, 0, 0, 0, 0, 64, 6, 0, 0, 10, 0, 0, 9, 10, 0, 0, 2,
      0x1f, 0x90, 0x01, 0x2c, 0, 0, 0, 0, 0, 0, 0, 0, 0x50, 0x10, 0, 0, 0, 0, 0, 0, 7] := ⟨_, rfl⟩
  have hport : dstPort (IOBuf.first [frame]) = 300 := by subst hframe; decide
  have hmaps : h.MapsPort (Net.onesComplement ⟨[10, 0, 0, 2], rfl⟩ 2)
      (dstPort (IOBuf.first [frame])) ⟨5, 1, 80⟩ := by
    subst hh
    rw [hport]
    exact ⟨fun _ y hy => absurd hy (Bimap.not_mem_empty y), Bimap.mem_insert_self rfl rfl,
      Nat.lt_succ_self 1⟩
  have hbuf : IsExternalTcp [frame] := by
    subst hframe
    exact ⟨by decide, by decide, by decide, by decide⟩
  refine ⟨h, [frame], (redirect_transparent hmaps hbuf 0).1, ?_⟩
  subst hh hframe
  exact ⟨_, rfl⟩

end PacketHost

end Umm

import BBBLinux.RoutingTable.Network.Registry

/-!
This module contains the replication of routes. What a client has not read yet always brings its tables
to those of the server, whenever it joined and however slowly it reads.
-/

namespace RoutingTable

open CString

variable {U : Locals → Prop} {console : Console} {buffer : Mem} {s : Server} {t : Tables}
  {c c' : Client} {u : Locals}

theorem CommandLine.means (hU : MaskByText U) (h : CommandLine U console buffer)
    (hisRt : (parseLine console.locals buffer).isRtMac = .isRt) :
    Means U buffer
      ((parseLine console.locals buffer).opcode, (parseLine console.locals buffer).entry) := by
  have hcommand := h.command
  have hcmd := h.isCommand
  have hentry : (parseLine console.locals buffer).entry
      = .route (.ofMem (parseLine console.locals buffer).msgInfo.data) := by
    unfold Parsed.entry
    rw [hisRt]
  generalize (parseLine console.locals buffer).opcode = op at hcommand hcmd ⊢
  rw [hentry] at hcommand ⊢
  generalize DataInfo.ofMem (parseLine console.locals buffer).msgInfo.data = info at hcommand ⊢
  rw [parseLine_eq] at hcommand
  intro v hv
  rw [parseLine_eq]
  have haccepted (k : RouteKey) (hmask : k.MaskAccepted console.locals) : k.MaskAccepted v := by
    unfold RouteKey.MaskAccepted at hmask ⊢
    rw [hU v console.locals hv h.locals]
    exact hmask
  cases command_parseWords isWord_words (h.fits hisRt) h.nonblank hcmd hcommand with
  | inl hroute =>
    have ⟨r, _, hmask, hsame⟩ := hroute
    exact hsame v (haccepted r.toRouteKey hmask)
  | inr hkey =>
    have ⟨_, k, _, hmask, hsame⟩ := hkey
    exact hsame v (haccepted k hmask)

theorem CommandLine.console_eq (h : CommandLine U console buffer)
    (hisRt : (parseLine console.locals buffer).isRtMac = .isRt) :
    let op := (parseLine console.locals buffer).opcode
    let e := (parseLine console.locals buffer).entry
    (s.console console buffer).1.toTables = s.guarded op e
      ∧ (s.console console buffer).2.kills = []
      ∧ (s.console console buffer).2.writes =
        if s.check op e = true then s.clientFds.map fun fd => (fd, buffer) else [] := by
  dsimp only
  rw [Server.console_eq h.retVal]
  dsimp only
  refine ⟨?_, Server.dispatch_kills h.isCommand, ?_⟩
  . cases s.dispatched console h.isCommand with
    | performed hcheck _ _ _ htables => rw [htables, Tables.guarded_of_check hcheck]
    | refused hcheck _ _ htables =>
      rw [htables, Tables.guarded_of_not_check]
      rw [hcheck]
      apply Bool.false_ne_true
    | noIP _ hprompts =>
      unfold Parsed.prompts at hprompts
      rw [hisRt] at hprompts
      contradiction
  . cases s.dispatched console h.isCommand with
    | performed hcheck _ hretVal =>
      rw [hretVal, hcheck]
      rfl
    | refused hcheck hretVal =>
      rw [hretVal, hcheck]
      rfl
    | noIP _ hprompts =>
      unfold Parsed.prompts at hprompts
      rw [hisRt] at hprompts
      contradiction

structure Client.Follows (U : Locals → Prop) (t : Tables) (c : Client) : Prop where
  alive : c.phase ≠ .exited
  calm : c.pending = false
  replays : ∃ cs, List.Forall₂ (Means U) (c.unread.map Message.text) cs
    ∧ (∀ command ∈ cs, command.1.isCommand = true) ∧ c.tables.replay cs = t

namespace Client.Follows

theorem joined (ht : t.Reproducible U) (pid : Int) (bufferMac : Mem) (epoch : Nat) :
    ((Client.connected pid).receive (snapshot buffer bufferMac t) epoch).Follows U t := by
  refine ⟨by simp [receive, connected], rfl, t.commands, ?_, fun _ => isCommand_of_mem_commands, ?_⟩
  . rw [unread_receive, List.map_append, List.map_map]
    have htexts : List.map (Message.text ∘ fun text => { text := text, epoch := epoch })
        (snapshot buffer bufferMac t) = snapshot buffer bufferMac t := List.map_id _
    rw [htexts]
    apply means_snapshot ht buffer bufferMac
  . apply Tables.replay_commands ht.spread ht.spreadMac

theorem informed {op : Opcode} {e : Entry} (h : c.Follows U t) (hmeans : Means U buffer (op, e))
    (hcmd : op.isCommand = true) (epoch : Nat) :
    (c.receive (if t.check op e = true then [buffer] else []) epoch).Follows U (t.guarded op e) := by
  have ⟨cs, htexts, hcs, hreplay⟩ := h.replays
  split
  . refine ⟨h.alive, h.calm, cs ++ [(op, e)], ?_, ?_, ?_⟩
    . rw [unread_receive, List.map_append]
      apply List.rel_append htexts
      exact .cons hmeans .nil
    . intro command hcommand
      rw [List.mem_append, List.mem_singleton] at hcommand
      cases hcommand with
      | inl hcommand => exact hcs command hcommand
      | inr hcommand =>
        rw [hcommand]
        exact hcmd
    . have htables : (c.receive [buffer] epoch).tables = c.tables := rfl
      rw [htables, Tables.replay_append, hreplay]
      rfl
  . next hcheck =>
    rw [receive_nil, Tables.guarded_of_not_check hcheck]
    exact h

theorem of_eq (h : c.Follows U t) (halive : c'.phase ≠ .exited) (hpending : c'.pending = c.pending)
    (hunread : c'.unread = c.unread) (htables : c'.tables = c.tables) : c'.Follows U t := by
  refine ⟨halive, hpending.trans h.calm, ?_⟩
  rw [hunread, htables]
  exact h.replays

theorem request (h : c.Follows U t) (hu : U u) (hrequest : c.request u = some c') :
    c'.Follows U t := by
  have ⟨message, hbuffer, hc'⟩ := request_eq_some hrequest
  have ⟨cs, htexts, hcs, hreplay⟩ := h.replays
  unfold unread at htexts
  rw [hbuffer] at htexts
  cases htexts with
  | @cons _ command _ cs hmeans htexts =>
    have hcmd := hcs command List.mem_cons_self
    have heq := request_eq (t := c.tables) (hmeans u hu) hcmd
    cases hc' with
    | inl hsome =>
      have ⟨tables, htables, hc'⟩ := hsome
      rw [heq, Option.some.injEq] at htables
      rw [hc', ← htables]
      exact ⟨h.alive, h.calm, cs, htexts, fun command hmem => hcs command (List.mem_cons_of_mem _ hmem),
        hreplay⟩
    | inr hnone =>
      rw [heq] at hnone
      exact absurd hnone.1 (by simp)

end Client.Follows

namespace Network

variable {net net' : Network} {l : Label} {fd : Int}

def Replicable (U : Locals → Prop) (net : Network) : Label → Prop
  | .accept _ _ _ _ => net.accepted < 30
  | .console console buffer =>
    CommandLine U console buffer ∧ (parseLine console.locals buffer).isRtMac = .isRt
  | .request _ u => U u
  | _ => True

structure Replicating (U : Locals → Prop) (net : Network) : Prop where
  reproducible : net.server.Reproducible U
  registry : net.Registry
  follows : ∀ fd c, net.clients fd = some c → c.Follows U net.server.toTables

namespace Replicating

theorem start {connectionSocket : Int} {shm : Shm} (h : 0 < connectionSocket) :
    (Network.start connectionSocket shm).Replicating U := by
  refine ⟨.empty, .start h, ?_⟩
  intro fd c hc
  contradiction

theorem reproducible_next (hU : MaskByText U) (h : net.Replicating U) (hok : net.Replicable U l)
    (hnext : net.next l = some net') : net'.server.Reproducible U := by
  cases l with
  | console console buffer =>
    simp only [Network.next, Option.some.injEq] at hnext
    rw [← hnext]
    apply hok.1.reproducible hU h.reproducible
  | _ =>
    rw [(quiet_of_next hnext (by simp)).1]
    apply h.reproducible

theorem messagesFor_console (h : net.Registry) (hc : net.clients fd = some c)
    (hline : CommandLine U console buffer)
    (hisRt : (parseLine console.locals buffer).isRtMac = .isRt) :
    messagesFor fd (net.server.console console buffer).2.writes =
      if net.server.check (parseLine console.locals buffer).opcode
          (parseLine console.locals buffer).entry = true then [buffer] else [] := by
  have ⟨hpos, hne⟩ := h.descriptor fd c hc
  rw [(hline.console_eq hisRt).2.2]
  split
  . apply Server.messagesFor_clientFds
    rw [Server.count_clientFds hpos hne, h.monitored fd hpos hne, hc]
    rfl
  . rfl

theorem follows_next (hU : MaskByText U) (h : net.Replicating U) (hok : net.Replicable U l)
    (hnext : net.next l = some net') (hc' : net'.clients fd = some c') :
    c'.Follows U net'.server.toTables := by
  cases evolves hnext hc' with
  | joined pid buffer bufferMac hc' =>
    rw [(quiet_of_next hnext (by simp)).1, hc']
    exact .joined h.reproducible pid bufferMac net.flushes
  | informed console buffer c hc hc' =>
    have hconsole := hok.1.console_eq (s := net.server) hok.2
    have htables : net'.server.toTables = (net.server.console console buffer).1.toTables := by
      simp only [Network.next, Option.some.injEq] at hnext
      rw [← hnext]
      rfl
    rw [htables, hconsole.1, hc', hconsole.2.1, if_neg List.not_mem_nil]
    rw [messagesFor_console h.registry hc hok.1 hok.2]
    exact (h.follows fd c hc).informed (hok.1.means hU hok.2) hok.1.isCommand net.flushes
  | registered c pid toServer hc htoServer hc' =>
    rw [(quiet_of_next hnext (by simp)).1, hc']
    exact (h.follows fd c hc).of_eq (h.follows fd c hc).alive rfl rfl rfl
  | announced c hc hc' =>
    obtain ⟨_, heq⟩ := Client.announce_eq_some hc'
    rw [(quiet_of_next hnext (by simp)).1, heq]
    exact (h.follows fd c hc).of_eq (by simp) rfl rfl rfl
  | installed c hc hc' =>
    obtain ⟨_, heq⟩ := Client.install_eq_some hc'
    rw [(quiet_of_next hnext (by simp)).1, heq]
    exact (h.follows fd c hc).of_eq (by simp) rfl rfl rfl
  | read c hc hc' =>
    obtain ⟨_, _, _, _, heq⟩ := Client.read_eq_some hc'
    have hunread := Client.unread_of_read hc'
    rw [(quiet_of_next hnext (by simp)).1]
    rw [heq] at hunread ⊢
    exact (h.follows fd c hc).of_eq (h.follows fd c hc).alive rfl hunread rfl
  | requested c u hc hc' =>
    rw [(quiet_of_next hnext (by simp)).1]
    exact (h.follows fd c hc).request hok hc'
  | handled c hc hc' =>
    obtain ⟨_, hpending, _⟩ := Client.handle_eq_some hc'
    rw [(h.follows fd c hc).calm] at hpending
    contradiction
  | same hc hl =>
    rw [(quiet_of_next hnext hl).1]
    exact h.follows fd c' hc

theorem next (hU : MaskByText U) (h : net.Replicating U) (hok : net.Replicable U l)
    (hpossible : net.Possible l) (hnext : net.next l = some net') : net'.Replicating U := by
  constructor
  . apply h.reproducible_next hU hok hnext
  . apply h.registry.next (fun fd c hc => (h.follows fd c hc).alive) hpossible hnext
    . intro fd pid buffer bufferMac hl
      rw [hl] at hok
      exact hok
    . intro console buffer _
      apply Server.console_sameClients
  . intro fd c' hc'
    apply h.follows_next hU hok hnext hc'

end Replicating

theorem replicating_of_reachable (hU : MaskByText U)
    (h : system.ReachableVia (Replicable U) net) : net.Replicating U := by
  apply h.invariant (P := fun net => net.Replicating U)
  . intro net ⟨connectionSocket, hpos, shm, hnet⟩
    rw [hnet]
    exact .start hpos
  . intro net l net' hnet hok ⟨hpossible, hnext⟩
    apply hnet.next hU hok hpossible hnext

theorem replicas_agree (hU : MaskByText U) (h : system.ReachableVia (Replicable U) net)
    (hc : net.clients fd = some c) (hunread : c.unread = []) :
    c.tables.head = net.server.head := by
  have ⟨cs, htexts, _, hreplay⟩ := ((replicating_of_reachable hU h).follows fd c hc).replays
  rw [hunread] at htexts
  cases htexts
  rw [← hreplay]
  rfl

def joinBetween : List Label :=
  let console := Console.replying "10.0.0.2\n"
  [.console console createRouteLine, .accept 4 100 [] [], .console console createRouteLine,
    .announce 4, .clientData 4, .install 4, .read 4, .request 4 .zero, .read 4, .request 4 .zero]

theorem replicas_agree_joinBetween :
    ∃ c, ((start 3 fun _ => none).run joinBetween).clients 4 = some c ∧ c.tables.head.length = 2
      ∧ c.tables.head = ((start 3 fun _ => none).run joinBetween).server.head := by
  have hreach : system.ReachableVia (Replicable (· = Locals.zero))
      ((start 3 fun _ => none).run joinBetween) := by
    apply reachableVia_run
    . exact .init ⟨3, by decide, _, rfl⟩
    . have hline := commandLine_createRouteLine
      refine ⟨⟨hline, rfl⟩, trivial, rfl, ?_⟩
      refine ⟨Nat.zero_lt_succ 29, ?_, rfl, ?_⟩
      . refine ⟨rfl, by decide, by decide, by decide, ?_⟩
        intro fd c hc
        cases hc
      refine ⟨⟨hline, rfl⟩, trivial, rfl, ?_⟩
      refine ⟨trivial, trivial, rfl, ?_⟩
      refine ⟨trivial, trivial, rfl, ?_⟩
      refine ⟨trivial, trivial, rfl, ?_⟩
      refine ⟨trivial, trivial, rfl, ?_⟩
      refine ⟨rfl, trivial, by decide +kernel, ?_⟩
      refine ⟨trivial, trivial, by decide +kernel, ?_⟩
      exact ⟨rfl, trivial, by decide +kernel, trivial⟩
  have hsome : (((start 3 fun _ => none).run joinBetween).clients 4).isSome = true := by
    decide +kernel
  rw [Option.isSome_iff_exists] at hsome
  have ⟨c, hc⟩ := hsome
  have hunread : (((start 3 fun _ => none).run joinBetween).clients 4).map Client.unread = some [] := by
    decide +kernel
  have hlength : (((start 3 fun _ => none).run joinBetween).clients 4).map
      (fun c => c.tables.head.length) = some 2 := by
    decide +kernel
  rw [hc] at hunread hlength
  exact ⟨c, hc, Option.some.inj hlength,
    replicas_agree maskByText_zero hreach hc (Option.some.inj hunread)⟩

end Network

end RoutingTable

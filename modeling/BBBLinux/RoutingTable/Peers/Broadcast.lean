import BBBLinux.RoutingTable.Peers.Agreement

/-!
This module contains the relation between what the server does to its tables and what it tells its
clients. `ret_val` is the number of bytes of the reply to the prompt for an IP before it is the flag
for success, so a reply of a single byte passes for success. And a client may read the line differently,
since it finds other bytes in its memory.
-/

namespace RoutingTable

open CString

variable {u : Locals} {v : Int → Locals} {s : Server} {console : Console} {buffer : Mem} {fd : Int}

def received (u : Locals) (fd : Int) (writes : List (Int × Mem)) : List (Locals × Mem) :=
  (messagesFor fd writes).map fun message => (u, message)

namespace Server

/--
The line is written to the clients if its guard held and the operation was performed, and not
otherwise, and the clients, who had the same tables, have the same tables again. `v` is what they find in
their memory.
-/
structure BroadcastIffApplied (s : Server) (v : Int → Locals) (console : Console) (buffer : Mem) :
    Prop where
  broadcast : (s.console console buffer).2.writes =
    if s.check (parseLine console.locals buffer).opcode (parseLine console.locals buffer).entry = true
        ∧ (s.console console buffer).2.performed = true then
      s.clientFds.map fun fd => (fd, buffer)
    else
      []
  equal : ∀ fd, s.clientFds.count fd = 1 →
    requests s.toTables (received (v fd) fd (s.console console buffer).2.writes)
      = some (s.console console buffer).1.toTables

def OneByteReply (s : Server) (console : Console) (parsed : Parsed) : Prop :=
  parsed.prompts = true ∧ s.check parsed.opcode parsed.entry = true ∧ console.acceptsIP = false
    ∧ console.reply.length = 1

/--
The guard holds, and so does everything that the server asks for besides.
-/
def Accepts (s : Server) (console : Console) (parsed : Parsed) : Prop :=
  s.check parsed.opcode parsed.entry = true ∧ (parsed.prompts = true → console.acceptsIP = true)

/--
What the server has accepted is the same for the clients.
-/
def ReadAlike (s : Server) (v : Int → Locals) (console : Console) (buffer : Mem) : Prop :=
  s.Accepts console (parseLine console.locals buffer) → ∀ fd, s.clientFds.count fd = 1 →
    s.SameEffect (parseLine console.locals buffer).command (parseLine (v fd) buffer).command

theorem requests_received_nil (u : Locals) (fd : Int) (t : Tables) :
    requests t (received u fd []) = some t := by
  simp [received, messagesFor, requests]

theorem requests_received_clientFds {t : Tables} (hfd : s.clientFds.count fd = 1) :
    requests t (received u fd (s.clientFds.map fun fd => (fd, buffer))) = request t u buffer := by
  unfold received
  rw [messagesFor_clientFds hfd]
  simp [requests]

/--
An operation that was performed is broadcast, and the clients do the same if they read the same.
-/
theorem broadcastIffApplied_iff_of_performed (hret : (parseLine console.locals buffer).retVal = true)
    (hcmd : (parseLine console.locals buffer).opcode.isCommand = true)
    (haccepts : s.Accepts console (parseLine console.locals buffer))
    (hretVal : (s.dispatch console (parseLine console.locals buffer)).retVal = 1)
    (hperformed : (s.dispatch console (parseLine console.locals buffer)).performed = true)
    (htables : (s.dispatch console (parseLine console.locals buffer)).server.toTables
      = s.perform (parseLine console.locals buffer).opcode (parseLine console.locals buffer).entry) :
    s.BroadcastIffApplied v console buffer ↔ s.ReadAlike v console buffer := by
  have hcommand : (parseLine console.locals buffer).command =
      some ((parseLine console.locals buffer).opcode, (parseLine console.locals buffer).entry) := by
    rw [Parsed.command_eq_some_iff]
    exact ⟨hret, rfl, rfl⟩
  have hwrites : (s.console console buffer).2.writes = s.clientFds.map fun fd => (fd, buffer) := by
    rw [console_eq hret]
    dsimp only
    rw [if_pos hretVal]
  have hafter : (s.console console buffer).1.toTables = s.guarded
      (parseLine console.locals buffer).opcode (parseLine console.locals buffer).entry := by
    rw [console_eq hret, Tables.guarded_of_check haccepts.1]
    exact htables
  have hequal (fd : Int) (hfd : s.clientFds.count fd = 1) :
      requests s.toTables (received (v fd) fd (s.console console buffer).2.writes)
          = some (s.console console buffer).1.toTables
        ↔ s.SameEffect (parseLine console.locals buffer).command (parseLine (v fd) buffer).command := by
    rw [hwrites, hafter, requests_received_clientFds hfd]
    exact request_eq_guarded_iff hcmd hcommand
  constructor
  . intro h _ fd hfd
    exact (hequal fd hfd).mp (h.equal fd hfd)
  . intro h
    constructor
    . rw [hwrites, console_eq hret]
      simp only [hperformed, haccepts.1, and_self, if_true]
    . intro fd hfd
      exact (hequal fd hfd).mpr (h haccepts fd hfd)

theorem broadcastIffApplied_of_idle (hret : (parseLine console.locals buffer).retVal = true)
    (hretVal : (s.dispatch console (parseLine console.locals buffer)).retVal ≠ 1)
    (hperformed : (s.dispatch console (parseLine console.locals buffer)).performed = false)
    (htables : (s.dispatch console (parseLine console.locals buffer)).server.toTables = s.toTables) :
    s.BroadcastIffApplied v console buffer := by
  constructor
  . rw [console_eq hret]
    simp [hretVal, hperformed]
  . intro fd _
    rw [console_eq hret]
    simp only [hretVal, if_false, htables]
    apply requests_received_nil

/--
An operation that was broadcast although nothing was done goes unnoticed only where nobody listens.
-/
theorem broadcastIffApplied_iff_of_mistaken
    (hret : (parseLine console.locals buffer).retVal = true)
    (hretVal : (s.dispatch console (parseLine console.locals buffer)).retVal = 1)
    (hperformed : (s.dispatch console (parseLine console.locals buffer)).performed = false)
    (htables : (s.dispatch console (parseLine console.locals buffer)).server.toTables = s.toTables) :
    s.BroadcastIffApplied v console buffer ↔ s.clientFds = [] := by
  have hwrites : (s.console console buffer).2.writes = s.clientFds.map fun fd => (fd, buffer) := by
    rw [console_eq hret]
    simp [hretVal]
  have hidle : (s.console console buffer).2.performed = false := by
    rw [console_eq hret]
    exact hperformed
  constructor
  . intro h
    have hbroadcast := h.broadcast
    rw [hwrites, hidle] at hbroadcast
    simpa using hbroadcast
  . intro hfds
    rw [hfds, List.map_nil] at hwrites
    constructor
    . rw [hwrites, hidle]
      simp
    . intro fd _
      rw [hwrites, requests_received_nil, console_eq hret]
      simp only [htables]

/--
Every line is broadcast exactly if it was applied, unless it got a reply of one byte in vain, and then has
the same effect on the clients, unless they read another command that makes a difference.
-/
theorem broadcastIffApplied_iff (hret : (parseLine console.locals buffer).retVal = true)
    (hcmd : (parseLine console.locals buffer).opcode.isCommand = true) :
    s.BroadcastIffApplied v console buffer ↔
      ¬(s.OneByteReply console (parseLine console.locals buffer) ∧ s.clientFds ≠ [])
        ∧ s.ReadAlike v console buffer := by
  cases s.dispatched console hcmd with
  | performed hcheck hip hretVal hperformed htables =>
    rw [broadcastIffApplied_iff_of_performed hret hcmd ⟨hcheck, hip⟩ hretVal hperformed htables]
    refine ⟨fun h => ⟨?_, h⟩, And.right⟩
    intro ⟨⟨hprompts, _, hno, _⟩, _⟩
    rw [hip hprompts] at hno
    contradiction
  | refused hcheck hretVal hperformed htables =>
    have hfail : (s.dispatch console (parseLine console.locals buffer)).retVal ≠ 1 := by
      rw [hretVal]
      omega
    apply iff_of_true (broadcastIffApplied_of_idle hret hfail hperformed htables)
    constructor
    . intro ⟨⟨_, hyes, _⟩, _⟩
      rw [hcheck] at hyes
      contradiction
    . intro haccepts
      rw [Accepts, hcheck] at haccepts
      exact absurd haccepts.1 (by decide)
  | noIP hcheck hprompts hip hretVal hperformed htables =>
    have halike : s.ReadAlike v console buffer := by
      intro haccepts
      have hyes := haccepts.2 hprompts
      rw [hip] at hyes
      contradiction
    by_cases hone : console.reply.length = 1
    . have hreply : s.OneByteReply console (parseLine console.locals buffer) :=
        ⟨hprompts, hcheck, hip, hone⟩
      rw [hone] at hretVal
      rw [broadcastIffApplied_iff_of_mistaken hret hretVal hperformed htables]
      simp [hreply, halike]
    . have hfail : (s.dispatch console (parseLine console.locals buffer)).retVal ≠ 1 := by
        rw [hretVal]
        omega
      apply iff_of_true (broadcastIffApplied_of_idle hret hfail hperformed htables)
      exact ⟨fun h => hone h.1.2.2.2, halike⟩

def createMac : Mem :=
  bytes bufferSize (text "C 00:11:22:33:44:55\n")

theorem broadcastIffApplied_iff_createMac :
    oneClient.BroadcastIffApplied (fun _ => .zero) (Console.replying "10.0.0.1\n") createMac := by
  apply (broadcastIffApplied_iff (by decide +kernel) (by decide +kernel)).mpr
  constructor
  . intro h
    have hlength := h.1.2.2.2
    contradiction
  . intro _ fd _
    exact .inl rfl

theorem createMac_newline_broadcast :
    ¬∀ (s : Server) (v : Int → Locals) (console : Console) (buffer : Mem),
      (parseLine console.locals buffer).retVal = true →
      (parseLine console.locals buffer).opcode.isCommand = true →
      s.BroadcastIffApplied v console buffer := by
  intro h
  have hbroadcast := (h oneClient (fun _ => .zero) (Console.replying "\n") createMac (by decide +kernel)
    (by decide +kernel)).broadcast
  revert hbroadcast
  decide +kernel

def createRoute8 : Mem :=
  bytes bufferSize (text "C 10.0.0.0 8 10.0.0.1 eth0\n")

/--
A client that finds a 9 behind its copy of the mask takes the 8 for 89 and rejects the line.
-/
theorem createRoute8_rejected :
    let v : Int → Locals := fun _ => { Locals.zero with afterMaskCheck := text "9" }
    (oneClient.console (Console.replying "") createRoute8).2.writes = [(4, createRoute8)]
      ∧ ¬oneClient.BroadcastIffApplied v (Console.replying "") createRoute8 := by
  intro v
  refine ⟨by decide +kernel, ?_⟩
  intro h
  have hequal := h.equal 4 (by decide +kernel)
  revert hequal
  decide +kernel

end Server

end RoutingTable

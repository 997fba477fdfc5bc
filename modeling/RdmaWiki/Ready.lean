import RdmaWiki.Heap

/-!
What holds in every reachable state with two clients and calls about words.

`Config.Ready` collects the link to the lock discipline, the state of the heap
and the exclusion of setters, and says that the requests under way are read by
the server as the clients mean them.
-/

namespace RdmaWiki

open CText StepMachine Locks

variable {N : ℕ}

/-- With two clients at most one is inside a set of a record, in every run. -/
theorem exclusive_of_run
    {guard : Guard (Config numClients) (Action numClients) (Event numClients)}
    {trace : List (Event numClients)} {cfg : Config numClients}
    (run : (protocol numClients).Run guard trace cfg) : (cfg.locks trace).Exclusive := by
  refine run.invariant (fun trace cfg => (cfg.locks trace).Exclusive) ?_ ?_
  · exact ⟨fun _ _ _ inside => (by cases inside), fun _ _ found => (by cases found)⟩
  · intro trace cfg action cfg' events before exclusive met next
    have linked := linked_of_run before
    obtain ⟨⟨a, step, -⟩, -⟩ := linked.next next
    exact exclusive.step linked.account step.clear_of_two step

structure Config.Ready (trace : List (Event N)) (cfg : Config N) : Prop where
  linked : Linked trace cfg
  heap : Heap cfg.db.find cfg.mem
  exclusive : (cfg.locks trace).Exclusive
  calls : ∀ d call, (cfg.clients d).phase.call = some call →
    call.fits = true ∧ IsWord call.key.bytes

theorem ready_of_run
    {guard : Guard (Config numClients) (Action numClients) (Event numClients)}
    {trace : List (Event numClients)} {cfg : Config numClients}
    (words : ∀ trace cfg c call, guard trace cfg (.invoke c call) → IsWord call.key.bytes)
    (run : (protocol numClients).Run guard trace cfg) : cfg.Ready trace where
  linked := linked_of_run run
  heap := heap_of_run run
  exclusive := exclusive_of_run run
  calls := calls_of_run words run

section Requests

variable {trace : List (Event N)} {cfg : Config N} {c d : Fin N} {buf : Bytes}
  {rest : List Bytes} {r : Request}

theorem Client.Shape.call_of_queue {cl : Client} (shape : cl.Shape)
    (queue : cl.requests = buf :: rest) : ∃ call, cl.phase.call = some call := by
  cases shape with
  | setAsk | setEager | setSize | setFin | getAsk | get | getFin => exact ⟨_, rfl⟩
  | _ => cases queue

/-- The server reads the request that the client means. -/
theorem Config.Ready.request_eq (ready : cfg.Ready trace)
    (queue : (cfg.clients c).requests = buf :: rest) (parsed : parseRequest buf = .request r) :
    (cfg.clients c).phase.request = some r := by
  obtain ⟨call, during⟩ := (ready.linked.shape c).call_of_queue queue
  obtain ⟨fits, word⟩ := ready.calls c call during
  have parses := (ready.linked.shape c).reads_word queue during word fits
  rw [parsed] at parses
  split at parses
  next => cases parses
  next wanted =>
    cases parses
    exact wanted

theorem Config.nextRequest_eq (queue : (cfg.clients c).requests = buf :: rest)
    (parsed : parseRequest buf = .request r) : cfg.nextRequest c = some r := by
  simp only [Config.nextRequest, queue, parsed]

theorem Config.nextRequest_elim (asked : cfg.nextRequest c = some r) :
    ∃ buf rest, (cfg.clients c).requests = buf :: rest ∧ parseRequest buf = .request r := by
  unfold Config.nextRequest at asked
  split at asked
  next => cases asked
  next buf rest queue =>
    split at asked
    next r' parsed =>
      cases asked
      exact ⟨buf, rest, queue, parsed⟩
    next => cases asked

theorem Linked.sends (linked : Linked trace cfg) (asked : cfg.nextRequest c = some r) :
    (cfg.clients c).Sends r := by
  obtain ⟨buf, rest, queue, parsed⟩ := Config.nextRequest_elim asked
  obtain ⟨-, crash | ⟨r', parsed', sends⟩⟩ := (linked.shape c).reads queue
  · rw [crash] at parsed
    cases parsed
  · rw [parsed'] at parsed
    cases parsed
    exact sends

/-! Which requests ask what. -/

/-- An action that asks anything of the lock table serves a request that asks it. -/
theorem Config.served_of_ask {action : Action N} {a : Ask Bytes} (real : a ≠ .quiet)
    (asks : a = .quiet ∨ a = cfg.ask action) :
    ∃ c addr rkey r, action = .serve c addr rkey ∧ cfg.nextRequest c = some r ∧
      cfg.askOf r = a := by
  have asked : a = cfg.ask action := asks.resolve_left real
  cases action with
  | invoke c call => exact absurd asked real
  | proceed c => exact absurd asked real
  | serve c addr rkey =>
      rw [Config.ask] at asked
      split at asked
      next r request => exact ⟨c, addr, rkey, r, rfl, request, asked.symm⟩
      next => exact absurd asked real

theorem askOf_setAsk {k : Bytes} (asks : cfg.askOf r = .setAsk k) : r = .setAsk k := by
  cases r with
  | setAsk key =>
      cases asks
      rfl
  | get key =>
      simp only [Config.askOf] at asks
      split at asks
      next => cases asks
      next => split at asks <;> cases asks
  | setEager | setRendezvous | setFin | getAsk | getFin => cases asks

theorem askOf_setFin {k : Bytes} (asks : cfg.askOf r = .setFin k) :
    r = .setFin k ∨ ∃ v, r = .setEager k v := by
  cases r with
  | setFin key =>
      cases asks
      exact .inl rfl
  | setEager key v =>
      cases asks
      exact .inr ⟨v, rfl⟩
  | get key =>
      simp only [Config.askOf] at asks
      split at asks
      next => cases asks
      next => split at asks <;> cases asks
  | setAsk | setRendezvous | getAsk | getFin => cases asks

theorem askOf_get {k : Bytes} (asks : cfg.askOf r = .get k) : r = .get k := by
  cases r with
  | get key =>
      simp only [Config.askOf] at asks
      split at asks
      next =>
        cases asks
        rfl
      next =>
        split at asks
        next => cases asks
        next =>
          cases asks
          rfl
  | setAsk | setEager | setRendezvous | setFin | getAsk | getFin => cases asks

end Requests

end RdmaWiki

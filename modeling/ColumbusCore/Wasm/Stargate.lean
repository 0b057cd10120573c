import ColumbusCore.Lib.Threads
import ColumbusCore.Wasm.Responses

/-!
The queries of contracts that are routed to the modules (`wasmbinding/stargate_whitelist.go`,
`wasmbinding/query_plugin.go`, `wasmbinding/helper.go`).

The whitelist has one response object for each path it allows, made when the program starts. A query
unmarshals the response of its module into the object of its path, marshals the object as JSON and
resets it. The map of the objects is safe for threads; the objects are shared by the contract calls
of a block, of simulations and of every query the node serves at the same time.

* `stargateQuerier`: a query that is alone, and `Caller.step`, one step of a caller among others;
* `alone_queries`: the steps of a caller that is alone are its queries, one after the other;
* `answers_own_iff`: **the answers of a caller are those it would get alone, whatever the schedule,
  exactly when no other caller queries a path it queries**;
* `answers_twoHeights`: a block and a query of the node that ask for the tax rate.
-/

namespace ColumbusCore.Wasm

open Go Wire

/-! ### A query that is alone -/

/-- The errors of a query: those of the virtual machine's interface, and those of a module. -/
inductive QueryError where
  | unsupportedRequest (kind : String)
  | unknown
  | module (e : Fault)
deriving DecidableEq

/-- `GetWhitelistedQuery`. -/
def getWhitelistedQuery (queryPath : String) : Except QueryError Whitelisted :=
  match queryPath with
  | "/terra.market.v1beta1.Query/Swap" => .ok .swap
  | "/terra.treasury.v1beta1.Query/TaxCap" => .ok .taxCap
  | "/terra.treasury.v1beta1.Query/TaxRate" => .ok .taxRate
  | "/terra.oracle.v1beta1.Query/ExchangeRate" => .ok .exchangeRate
  | _ => .error (.unsupportedRequest ("'" ++ queryPath ++ "' path is not allowed from the contract"))

/-- A query of a contract: its path, and what the router has for it in the context of the call, no
route or the outcome of the module. -/
structure StargateQuery where
  path : String
  route : Option (Outcome Bytes)

/-- The part of `StargateQuerier` before the conversion: the object of the path and the bytes of the
module. -/
def StargateQuery.reply (q : StargateQuery) : Except QueryError (Whitelisted × Bytes) :=
  match getWhitelistedQuery q.path with
  | .error e => .error e
  | .ok w =>
      match q.route with
      | none => .error (.unsupportedRequest ("No route to query '" ++ q.path ++ "'"))
      | some (.error e) => .error (.module e)
      | some (.ok value) => .ok (w, value)

/-- The objects of the whitelist. -/
abbrev Objects := (w : Whitelisted) → w.Response

variable (cdc : Cdc)

/-- The objects as they are made. -/
def newObjects : Objects := fun w => (w.codec cdc).empty

/-- What `ConvertProtoToJSONMarshal` returns for the outcome of `MarshalJSON`. -/
def shown : Outcome String → Except QueryError String
  | .ok text => .ok text
  | .error _ => .error .unknown

/-- `ConvertProtoToJSONMarshal`. An object is reset only after it was marshalled, so that it keeps
what an `Unmarshal` that fails has left in it. -/
def convertProtoToJSONMarshal (w : Whitelisted) (bz : Bytes) (objects : Objects) :
    Except QueryError String × Objects :=
  match (w.codec cdc).message.unmarshal bz (objects w) with
  | .error _ => (.error .unknown, Function.update objects w (cdc.leftover w bz (objects w)))
  | .ok m =>
      match cdc.marshalJSON w m with
      | .error _ => (.error .unknown, Function.update objects w m)
      | .ok text => (.ok text, Function.update objects w (w.codec cdc).empty)

/-- `StargateQuerier`. -/
def stargateQuerier (q : StargateQuery) (objects : Objects) : Except QueryError String × Objects :=
  match q.reply with
  | .error e => (.error e, objects)
  | .ok (w, bz) => convertProtoToJSONMarshal cdc w bz objects

/-- The answer to a query with new objects. -/
def StargateQuery.answer (q : StargateQuery) : Except QueryError String :=
  (stargateQuerier cdc q (newObjects cdc)).1

/-! ### Callers -/

/-- Where a caller is in a query: it has the bytes of the module, has filled the object, or has
marshalled it and not yet reset it. -/
inductive Phase where
  | idle
  | routed (w : Whitelisted) (bz : Bytes)
  | filled (w : Whitelisted)
  | marshalled (w : Whitelisted) (text : String)

/-- A caller: the queries it still makes, and the answers it has. -/
structure Caller where
  phase : Phase
  queries : List StargateQuery
  answers : List (Except QueryError String)

/-- The query ends with an answer. -/
def Caller.finish (c : Caller) (answer : Except QueryError String) : Caller :=
  { c with phase := .idle, answers := c.answers ++ [answer] }

/-- One step of a caller. The steps that touch an object are `Unmarshal`, `MarshalJSON` and
`Reset`. -/
def Caller.step (objects : Objects) (c : Caller) : Option (Objects × Caller) :=
  match c.phase with
  | .idle =>
      match c.queries with
      | [] => none
      | q :: rest =>
          match q.reply with
          | .error e => some (objects, { c with queries := rest }.finish (.error e))
          | .ok (w, bz) => some (objects, { c with phase := .routed w bz, queries := rest })
  | .routed w bz =>
      match (w.codec cdc).message.unmarshal bz (objects w) with
      | .error _ =>
          some (Function.update objects w (cdc.leftover w bz (objects w)), c.finish (.error .unknown))
      | .ok m => some (Function.update objects w m, { c with phase := .filled w })
  | .filled w =>
      match cdc.marshalJSON w (objects w) with
      | .error _ => some (objects, c.finish (.error .unknown))
      | .ok text => some (objects, { c with phase := .marshalled w text })
  | .marshalled w text =>
      some (Function.update objects w (w.codec cdc).empty, c.finish (.ok text))

/-- The caller has all its answers. -/
def Caller.Done (c : Caller) : Prop := c.phase = .idle ∧ c.queries = []

variable {ι : Type} [DecidableEq ι]

/-- Callers with their queries, and new objects. -/
def start (queries : ι → List StargateQuery) : Threads ι Objects Caller :=
  ⟨newObjects cdc, fun i => ⟨.idle, queries i, []⟩⟩

/-- The callers after the turns of a schedule. -/
def interleaved (queries : ι → List StargateQuery) (schedule : List ι) : Threads ι Objects Caller :=
  (start cdc queries).run (Caller.step cdc) schedule

/-- The query reaches the object of the path `w`. -/
def StargateQuery.Uses (q : StargateQuery) (w : Whitelisted) : Prop := ∃ bz, q.reply = .ok (w, bz)

/-- What a module returns is the bytes of a response. -/
def StargateQuery.Served (q : StargateQuery) : Prop :=
  ∀ w bz, q.reply = .ok (w, bz) → ∃ m, w.Proper cdc m ∧ (w.codec cdc).marshal m = .ok bz

/-- JSON shows every response. -/
def Shows : Prop :=
  ∀ (w : Whitelisted) (m : w.Response), w.Proper cdc m → ∃ text, cdc.marshalJSON w m = .ok text

/-! ### What a step can do -/

section Steps

variable {cdc}

variable (cdc) in
/-- The steps: a query is refused or taken up, its response is unmarshalled into the object, the object
is marshalled, and it is reset. -/
inductive Caller.Step (objects : Objects) : Caller → Objects → Caller → Prop where
  | refuse {q : StargateQuery} {queries answers} {e : QueryError} (hreply : q.reply = .error e) :
      Step objects ⟨.idle, q :: queries, answers⟩ objects ⟨.idle, queries, answers ++ [.error e]⟩
  | takeUp {q : StargateQuery} {queries answers} {w : Whitelisted} {bz : Bytes}
      (hreply : q.reply = .ok (w, bz)) :
      Step objects ⟨.idle, q :: queries, answers⟩ objects ⟨.routed w bz, queries, answers⟩
  | unreadable {queries answers} {w : Whitelisted} {bz : Bytes} {e : Fault}
      (hread : (w.codec cdc).message.unmarshal bz (objects w) = .error e) :
      Step objects ⟨.routed w bz, queries, answers⟩
        (Function.update objects w (cdc.leftover w bz (objects w)))
        ⟨.idle, queries, answers ++ [.error .unknown]⟩
  | fill {queries answers} {w : Whitelisted} {bz : Bytes} {m : w.Response}
      (hread : (w.codec cdc).message.unmarshal bz (objects w) = .ok m) :
      Step objects ⟨.routed w bz, queries, answers⟩ (Function.update objects w m)
        ⟨.filled w, queries, answers⟩
  | unshown {queries answers} {w : Whitelisted} {e : Fault}
      (hjson : cdc.marshalJSON w (objects w) = .error e) :
      Step objects ⟨.filled w, queries, answers⟩ objects
        ⟨.idle, queries, answers ++ [.error .unknown]⟩
  | marshal {queries answers} {w : Whitelisted} {text : String}
      (hjson : cdc.marshalJSON w (objects w) = .ok text) :
      Step objects ⟨.filled w, queries, answers⟩ objects ⟨.marshalled w text, queries, answers⟩
  | reset {queries answers} {w : Whitelisted} {text : String} :
      Step objects ⟨.marshalled w text, queries, answers⟩
        (Function.update objects w (w.codec cdc).empty) ⟨.idle, queries, answers ++ [.ok text]⟩

lemma Caller.step_iff {objects objects' : Objects} {c c' : Caller} :
    c.step cdc objects = some (objects', c')
      ↔ Caller.Step cdc objects c objects' c' := by
  constructor
  · intro h
    obtain ⟨phase, queries, answers⟩ := c
    cases phase with
    | idle =>
        cases queries with
        | nil => simp [Caller.step] at h
        | cons q rest =>
            cases hreply : q.reply with
            | error e =>
                simp only [Caller.step, hreply, Option.some.injEq, Prod.mk.injEq] at h
                obtain ⟨rfl, rfl⟩ := h
                exact .refuse hreply
            | ok r =>
                simp only [Caller.step, hreply, Option.some.injEq, Prod.mk.injEq] at h
                obtain ⟨rfl, rfl⟩ := h
                exact .takeUp hreply
    | routed w bz =>
        cases hread : (w.codec cdc).message.unmarshal bz (objects w) with
        | error e =>
            simp only [Caller.step, hread, Option.some.injEq, Prod.mk.injEq] at h
            obtain ⟨rfl, rfl⟩ := h
            exact .unreadable hread
        | ok m =>
            simp only [Caller.step, hread, Option.some.injEq, Prod.mk.injEq] at h
            obtain ⟨rfl, rfl⟩ := h
            exact .fill hread
    | filled w =>
        cases hjson : cdc.marshalJSON w (objects w) with
        | error e =>
            simp only [Caller.step, hjson, Option.some.injEq, Prod.mk.injEq] at h
            obtain ⟨rfl, rfl⟩ := h
            exact .unshown hjson
        | ok text =>
            simp only [Caller.step, hjson, Option.some.injEq, Prod.mk.injEq] at h
            obtain ⟨rfl, rfl⟩ := h
            exact .marshal hjson
    | marshalled w text =>
        simp only [Caller.step, Option.some.injEq, Prod.mk.injEq] at h
        obtain ⟨rfl, rfl⟩ := h
        exact .reset
  · intro h
    cases h with
    | refuse hreply => simp only [Caller.step, hreply]; rfl
    | takeUp hreply => simp only [Caller.step, hreply]
    | unreadable hread => simp only [Caller.step, hread]; rfl
    | fill hread => simp only [Caller.step, hread]
    | unshown hjson => simp only [Caller.step, hjson]; rfl
    | marshal hjson => simp only [Caller.step, hjson]
    | reset => rfl

end Steps

/-! ### A caller alone -/

section Alone

variable {cdc} {q : StargateQuery} {objects : Objects}

/-- A response that is served is read as itself into any object. -/
lemma StargateQuery.Served.unmarshal (hq : q.Served cdc) {w : Whitelisted} {bz : Bytes}
    (hreply : q.reply = .ok (w, bz)) :
    ∃ m, w.Proper cdc m ∧ ∀ m', (w.codec cdc).message.unmarshal bz m' = .ok m := by
  obtain ⟨m, hproper, hmarshal⟩ := hq w bz hreply
  obtain ⟨bz', hover⟩ := w.overwrites hproper
  obtain rfl := Except.ok.inj (hover.marshal_eq.symm.trans hmarshal)
  exact ⟨m, hproper, hover.unmarshal_eq⟩

/-- The answer to a query that is served does not depend on what its object holds. -/
lemma stargateQuerier_eq_answer (hq : q.Served cdc) (objects : Objects) :
    (stargateQuerier cdc q objects).1 = q.answer cdc := by
  rw [StargateQuery.answer, stargateQuerier, stargateQuerier]
  cases hreply : q.reply with
  | error e => rfl
  | ok r =>
      obtain ⟨m, -, hread⟩ := hq.unmarshal hreply
      simp only [convertProtoToJSONMarshal, hread]
      cases cdc.marshalJSON r.1 m <;> rfl

/-- The answer to a query shows the response, where that is read whatever its object holds. -/
lemma StargateQuery.answer_eq {w : Whitelisted} {bz : Bytes}
    (hreply : q.reply = .ok (w, bz)) {m : w.Response}
    (hread : ∀ m', (w.codec cdc).message.unmarshal bz m' = .ok m) :
    q.answer cdc = shown (cdc.marshalJSON w m) := by
  rw [StargateQuery.answer, stargateQuerier, hreply]
  simp only [convertProtoToJSONMarshal, hread]
  cases cdc.marshalJSON w m <;> rfl

variable (cdc) in
/-- The steps of a caller up to the marshalling, of a query that is served. -/
lemma alone_filled {c : Threads ι Objects Caller} {i : ι} {rest : List StargateQuery}
    {answers : List (Except QueryError String)} (hi : c.own i = ⟨.idle, q :: rest, answers⟩)
    {w : Whitelisted} {bz : Bytes} (hreply : q.reply = .ok (w, bz)) {m : w.Response}
    (hread : (w.codec cdc).message.unmarshal bz (c.shared w) = .ok m) :
    c.Alone (Caller.step cdc) i (Function.update c.shared w m)
      ⟨.filled w, rest, answers⟩ := by
  have hstart := Threads.alone_refl (Caller.step cdc) c i
  rw [hi] at hstart
  exact (hstart.tail (Caller.step_iff.mpr (.takeUp hreply))).tail
    (Caller.step_iff.mpr (.fill hread))

/-- The steps of a caller from the marshalling on: the answer is what the object shows. -/
lemma alone_finish {c : Threads ι Objects Caller} {i : ι} {objects : Objects}
    {w : Whitelisted} {rest : List StargateQuery} {answers : List (Except QueryError String)}
    (h : c.Alone (Caller.step cdc) i objects ⟨.filled w, rest, answers⟩) :
    c.Alone (Caller.step cdc) i
      (match cdc.marshalJSON w (objects w) with
        | .ok _ => Function.update objects w (w.codec cdc).empty
        | .error _ => objects)
      ⟨.idle, rest, answers ++ [shown (cdc.marshalJSON w (objects w))]⟩ := by
  cases hjson : cdc.marshalJSON w (objects w) with
  | error e => exact h.tail (Caller.step_iff.mpr (.unshown hjson))
  | ok text =>
      exact (h.tail (Caller.step_iff.mpr (.marshal hjson))).tail (Caller.step_iff.mpr .reset)

variable (cdc) in
/-- **The steps of a caller whose turns are not interrupted are the query.** -/
theorem alone_query {c : Threads ι Objects Caller} {i : ι} {rest : List StargateQuery}
    {answers : List (Except QueryError String)} (hi : c.own i = ⟨.idle, q :: rest, answers⟩) :
    c.Alone (Caller.step cdc) i (stargateQuerier cdc q c.shared).2
      ⟨.idle, rest, answers ++ [(stargateQuerier cdc q c.shared).1]⟩ := by
  have hstart := Threads.alone_refl (Caller.step cdc) c i
  rw [hi] at hstart
  cases hreply : q.reply with
  | error e =>
      have hrefused := hstart.tail (Caller.step_iff.mpr (.refuse hreply))
      simpa only [stargateQuerier, hreply] using hrefused
  | ok r =>
      obtain ⟨w, bz⟩ := r
      cases hread : (w.codec cdc).message.unmarshal bz (c.shared w) with
      | error e =>
          have hunread := (hstart.tail (Caller.step_iff.mpr (.takeUp hreply))).tail
            (Caller.step_iff.mpr (.unreadable hread))
          simpa only [stargateQuerier, hreply, convertProtoToJSONMarshal, hread] using hunread
      | ok m =>
          have hanswered := alone_finish (alone_filled cdc hi hreply hread)
          simp only [stargateQuerier, hreply, convertProtoToJSONMarshal, hread]
          rw [Function.update_self] at hanswered
          cases hjson : cdc.marshalJSON w m with
          | error e => simpa only [hjson, shown] using hanswered
          | ok text => simpa only [hjson, shown, Function.update_idem] using hanswered

variable (cdc) in
/-- Queries that are served are answered one after the other by a caller that is alone, whatever the
objects hold. -/
theorem alone_queries {i : ι} {queries rest : List StargateQuery}
    (hserved : ∀ q ∈ queries, q.Served cdc) {c : Threads ι Objects Caller}
    {answers : List (Except QueryError String)} (hi : c.own i = ⟨.idle, queries ++ rest, answers⟩) :
    ∃ objects, c.Alone (Caller.step cdc) i objects
      ⟨.idle, rest, answers ++ queries.map (StargateQuery.answer cdc)⟩ := by
  induction queries generalizing c answers with
  | nil =>
      refine ⟨c.shared, ?_⟩
      rw [List.map_nil, List.append_nil, ← List.nil_append rest, ← hi]
      exact Threads.alone_refl _ c i
  | cons q queries ih =>
      have hfirst := alone_query cdc hi
      rw [stargateQuerier_eq_answer (hserved q List.mem_cons_self)] at hfirst
      obtain ⟨objects, hrest⟩ := ih (fun q' hq' => hserved q' (List.mem_cons_of_mem q hq'))
        (c := ⟨_, Function.update c.own i _⟩) (Function.update_self _ _ _)
      refine ⟨objects, ?_⟩
      have hboth := hfirst.trans hrest
      rwa [List.append_assoc, List.singleton_append, ← List.map_cons] at hboth

end Alone

/-! ### Callers with paths of their own -/

/-- The object a caller is working on. -/
def Phase.object : Phase → Option Whitelisted
  | .idle => none
  | .routed w _ => some w
  | .filled w => some w
  | .marshalled w _ => some w

section Apart

variable {cdc}

/-- The caller makes its own queries and works on their objects. -/
structure Caller.Within (qs : List StargateQuery) (c : Caller) : Prop where
  queries : ∀ q ∈ c.queries, q ∈ qs
  object : ∀ w, c.phase.object = some w → ∃ q ∈ qs, q.Uses w

lemma Caller.Within.step {qs : List StargateQuery} {objects objects' : Objects} {c c' : Caller}
    (h : c.Within qs) (hstep : Caller.Step cdc objects c objects' c') : c'.Within qs := by
  cases hstep with
  | refuse hreply => exact ⟨fun q hq => h.queries q (List.mem_cons_of_mem _ hq), nofun⟩
  | takeUp hreply =>
      refine ⟨fun q hq => h.queries q (List.mem_cons_of_mem _ hq), fun w hw => ?_⟩
      obtain rfl := Option.some.inj hw
      exact ⟨_, h.queries _ List.mem_cons_self, _, hreply⟩
  | unreadable hread => exact ⟨h.queries, nofun⟩
  | fill hread => exact ⟨h.queries, h.object⟩
  | unshown hjson => exact ⟨h.queries, nofun⟩
  | marshal hjson => exact ⟨h.queries, h.object⟩
  | reset => exact ⟨h.queries, nofun⟩

/-- A step changes no object but the one its caller is working on. -/
lemma Caller.Step.frame {objects objects' : Objects} {c c' : Caller}
    (hstep : Caller.Step cdc objects c objects' c') {w : Whitelisted}
    (hw : c.phase.object ≠ some w) : objects' w = objects w := by
  cases hstep with
  | refuse hreply => rfl
  | takeUp hreply => rfl
  | unreadable hread => exact Function.update_of_ne (fun heq => hw (congrArg some heq.symm)) _ _
  | fill hread => exact Function.update_of_ne (fun heq => hw (congrArg some heq.symm)) _ _
  | unshown hjson => rfl
  | marshal hjson => rfl
  | reset => exact Function.update_of_ne (fun heq => hw (congrArg some heq.symm)) _ _

variable (cdc) in
/-- The caller has the answers it would get alone, and will have that of the query it is in. -/
inductive Caller.Faithful (qs : List StargateQuery) (objects : Objects) : Caller → Prop where
  | idle {done queries : List StargateQuery} (hqs : qs = done ++ queries) :
      Faithful qs objects ⟨.idle, queries, done.map (StargateQuery.answer cdc)⟩
  | routed {done queries : List StargateQuery} {q : StargateQuery} {w : Whitelisted} {bz : Bytes}
      (hqs : qs = done ++ q :: queries) (hreply : q.reply = .ok (w, bz)) :
      Faithful qs objects ⟨.routed w bz, queries, done.map (StargateQuery.answer cdc)⟩
  | filled {done queries : List StargateQuery} {q : StargateQuery} {w : Whitelisted}
      (hqs : qs = done ++ q :: queries) (huses : q.Uses w)
      (hanswer : q.answer cdc = shown (cdc.marshalJSON w (objects w))) :
      Faithful qs objects ⟨.filled w, queries, done.map (StargateQuery.answer cdc)⟩
  | marshalled {done queries : List StargateQuery} {q : StargateQuery} {w : Whitelisted}
      {text : String} (hqs : qs = done ++ q :: queries) (hanswer : q.answer cdc = .ok text) :
      Faithful qs objects
        ⟨.marshalled w text, queries, done.map (StargateQuery.answer cdc)⟩

/-- A query that ends with its own answer. -/
lemma Caller.faithful_finish {qs done queries : List StargateQuery} {q : StargateQuery}
    {objects : Objects} {answer : Except QueryError String} (hqs : qs = done ++ q :: queries)
    (hanswer : q.answer cdc = answer) :
    Caller.Faithful cdc qs objects
      ⟨.idle, queries, done.map (StargateQuery.answer cdc) ++ [answer]⟩ := by
  have hdone : done.map (StargateQuery.answer cdc) ++ [answer]
      = (done ++ [q]).map (StargateQuery.answer cdc) := by
    rw [List.map_append, List.map_singleton, hanswer]
  rw [hdone]
  exact .idle (by rw [hqs, List.append_assoc, List.singleton_append])

/-- A step of its own keeps a caller faithful. -/
lemma Caller.Faithful.own_step {qs : List StargateQuery} (hserved : ∀ q ∈ qs, q.Served cdc)
    {objects objects' : Objects} {c c' : Caller} (h : c.Faithful cdc qs objects)
    (hstep : Caller.Step cdc objects c objects' c') :
    c'.Faithful cdc qs objects' := by
  cases h with
  | @idle done queries hqs =>
      cases hstep with
      | @refuse q _ _ e hreply =>
          refine Caller.faithful_finish hqs ?_
          rw [StargateQuery.answer, stargateQuerier, hreply]
      | takeUp hreply => exact .routed hqs hreply
  | @routed done queries q w bz hqs hreply =>
      obtain ⟨m, -, hread⟩ := (hserved q (by simp [hqs])).unmarshal hreply
      cases hstep with
      | unreadable hread' => exact absurd ((hread _).symm.trans hread') (by simp)
      | fill hread' =>
          obtain rfl := Except.ok.inj ((hread _).symm.trans hread')
          refine .filled hqs ⟨bz, hreply⟩ ?_
          rw [Function.update_self]
          exact StargateQuery.answer_eq hreply hread
  | @filled done queries q w hqs huses hanswer =>
      cases hstep with
      | unshown hjson =>
          rw [hjson] at hanswer
          exact Caller.faithful_finish hqs hanswer
      | marshal hjson =>
          rw [hjson] at hanswer
          exact .marshalled hqs hanswer
  | @marshalled done queries q w text hqs hanswer =>
      cases hstep with
      | reset => exact Caller.faithful_finish hqs hanswer

/-- A step of another caller, on an object none of its queries uses, keeps it faithful. -/
lemma Caller.Faithful.other_step {qs : List StargateQuery} {objects objects' : Objects}
    {c d d' : Caller} (h : c.Faithful cdc qs objects)
    (hstep : Caller.Step cdc objects d objects' d')
    (hapart : ∀ w, d.phase.object = some w → ∀ q ∈ qs, ¬ q.Uses w) :
    c.Faithful cdc qs objects' := by
  cases h with
  | idle hqs => exact .idle hqs
  | routed hqs hreply => exact .routed hqs hreply
  | @filled done queries q w hqs huses hanswer =>
      refine .filled hqs huses ?_
      rw [hstep.frame fun hw => hapart w hw q (by simp [hqs]) huses]
      exact hanswer
  | marshalled hqs hanswer => exact .marshalled hqs hanswer

/-- A caller whose paths no other caller queries has the answers it would get alone. -/
lemma answers_of_apart {queries : ι → List StargateQuery} {i : ι}
    (hserved : ∀ q ∈ queries i, q.Served cdc)
    (hapart : ∀ j, j ≠ i → ∀ q ∈ queries i, ∀ q' ∈ queries j, ∀ w, q.Uses w → ¬ q'.Uses w)
    (schedule : List ι) (hdone : ((interleaved cdc queries schedule).own i).Done) :
    ((interleaved cdc queries schedule).own i).answers
      = (queries i).map (StargateQuery.answer cdc) := by
  have hinv : (∀ k, ((interleaved cdc queries schedule).own k).Within (queries k))
      ∧ ((interleaved cdc queries schedule).own i).Faithful cdc (queries i)
        (interleaved cdc queries schedule).shared := by
    refine Threads.run_invariant (I := fun c : Threads ι Objects Caller =>
      (∀ k, (c.own k).Within (queries k)) ∧ (c.own i).Faithful cdc (queries i) c.shared) ?_
      ⟨fun k => ⟨fun _ h => h, fun w hw => absurd hw (by simp [start, Phase.object])⟩,
        .idle (List.nil_append _).symm⟩ schedule
    rintro c k objects t ⟨hwithin, hfaithful⟩ hturn
    have hstep := Caller.step_iff.mp hturn
    refine ⟨fun k' => ?_, ?_⟩
    · by_cases hk : k' = k
      · subst hk
        simpa using (hwithin k').step hstep
      · simpa [Function.update_of_ne hk] using hwithin k'
    · by_cases hk : i = k
      · subst hk
        simpa using hfaithful.own_step hserved hstep
      · have hother := hfaithful.other_step hstep fun w hw q hq huses => by
          obtain ⟨q', hq', huses'⟩ := (hwithin k).object w hw
          exact hapart k (Ne.symm hk) q hq q' hq' w huses huses'
        simpa [Function.update_of_ne hk] using hother
  obtain ⟨hphase, hqueries⟩ := hdone
  generalize (interleaved cdc queries schedule).own i = c at hinv hphase hqueries
  cases hinv.2 with
  | idle hqs =>
      dsimp only at hqueries
      rw [hqs, hqueries, List.append_nil]
  | routed => exact absurd hphase (by simp)
  | filled => exact absurd hphase (by simp)
  | marshalled => exact absurd hphase (by simp)

end Apart

/-! ### Callers that share a path -/

section Shared

variable {cdc}

/-- Where another caller uses the object of a query, a schedule resets the object between the
unmarshalling and the marshalling of that query. -/
lemma exists_schedule_of_shared {queries : ι → List StargateQuery}
    (hserved : ∀ i, ∀ q ∈ queries i, q.Served cdc) (hshows : Shows cdc) {i j : ι} (hne : j ≠ i)
    {q q' : StargateQuery} (hq : q ∈ queries i) (hq' : q' ∈ queries j) {w : Whitelisted}
    (huses : q.Uses w) (huses' : q'.Uses w)
    (hnew : q.answer cdc ≠ shown (cdc.marshalJSON w (w.codec cdc).empty)) :
    ∃ schedule, ((interleaved cdc queries schedule).own i).Done
      ∧ ((interleaved cdc queries schedule).own i).answers
        ≠ (queries i).map (StargateQuery.answer cdc) := by
  obtain ⟨bz, hreply⟩ := huses
  obtain ⟨bz', hreply'⟩ := huses'
  obtain ⟨m, -, hread⟩ := (hserved i q hq).unmarshal hreply
  obtain ⟨m', hproper', hread'⟩ := (hserved j q' hq').unmarshal hreply'
  obtain ⟨before, after, hi⟩ := List.append_of_mem hq
  obtain ⟨before', after', hj⟩ := List.append_of_mem hq'
  -- the other caller makes its earlier queries, and marshals the object of this one
  obtain ⟨_, hearlier'⟩ := alone_queries cdc
    (fun q hq => hserved j q (by simp [hj, hq]))
    (show (start cdc queries).own j = ⟨.idle, before' ++ q' :: after', []⟩ by rw [← hj]; rfl)
  obtain ⟨s₁, c₁, hrun₁, -, hj₁, hothers₁⟩ := hearlier'.exists_run
  obtain ⟨text', hjson'⟩ := hshows w m' hproper'
  have hmarshalled := (alone_filled cdc hj₁ hreply' (hread' _)).tail (Caller.step_iff.mpr
    (.marshal (by rw [Function.update_self]; exact hjson')))
  obtain ⟨s₂, c₂, hrun₂, -, hj₂, hothers₂⟩ := hmarshalled.exists_run
  -- the caller makes its earlier queries, and fills the object
  have hi₂ : c₂.own i = ⟨.idle, before ++ q :: after, []⟩ := by
    rw [hothers₂ i hne.symm, hothers₁ i hne.symm, ← hi]
    rfl
  obtain ⟨_, hearlier⟩ := alone_queries cdc
    (fun q hq => hserved i q (by simp [hi, hq])) hi₂
  obtain ⟨s₃, c₃, hrun₃, -, hi₃, hothers₃⟩ := hearlier.exists_run
  obtain ⟨s₄, c₄, hrun₄, -, hi₄, hothers₄⟩ := (alone_filled cdc hi₃ hreply (hread _)).exists_run
  -- the other caller resets it
  have hj₄ := hothers₄ j hne
  rw [hothers₃ j hne, hj₂] at hj₄
  have hreset := Threads.alone_refl (Caller.step cdc) c₄ j
  rw [hj₄] at hreset
  obtain ⟨s₅, c₅, hrun₅, hshared₅, -, hothers₅⟩ :=
    (hreset.tail (Caller.step_iff.mpr .reset)).exists_run
  -- the caller shows it, and makes its later queries
  have hshown := Threads.alone_refl (Caller.step cdc) c₅ i
  rw [hothers₅ i hne.symm, hi₄] at hshown
  obtain ⟨s₆, c₆, hrun₆, -, hi₆, -⟩ := (alone_finish hshown).exists_run
  rw [hshared₅, Function.update_self] at hi₆
  rw [← List.append_nil after] at hi₆
  obtain ⟨_, hlater⟩ := alone_queries cdc (fun q hq => hserved i q (by simp [hi, hq])) hi₆
  obtain ⟨s₇, c₇, hrun₇, -, hi₇, -⟩ := hlater.exists_run
  have hend : interleaved cdc queries (s₁ ++ s₂ ++ s₃ ++ s₄ ++ s₅ ++ s₆ ++ s₇) = c₇ := by
    rw [interleaved]
    simp only [Threads.run_append, hrun₁, hrun₂, hrun₃, hrun₄, hrun₅, hrun₆, hrun₇]
  refine ⟨_, by rw [hend, hi₇]; exact ⟨rfl, rfl⟩, ?_⟩
  rw [hend, hi₇, hi]
  intro heq
  simp only [List.nil_append, List.map_append, List.map_cons, List.append_assoc,
    List.append_cancel_left_eq, List.cons_append, List.cons.injEq] at heq
  exact hnew heq.1.symm

end Shared

/-! ### Whose answers a caller gets -/

/-- **The answers of a caller are its own, whatever the schedule, exactly when no other caller queries
a path it queries.** Where the modules serve the queries, JSON shows the responses, and those of the
caller otherwise than a new object, a caller that is done has the answers it would get alone in every
schedule, if and only if no query of another caller reaches an object that one of its queries
reaches. -/
theorem answers_own_iff {queries : ι → List StargateQuery}
    (hserved : ∀ i, ∀ q ∈ queries i, q.Served cdc) (hshows : Shows cdc) {i : ι}
    (hnew : ∀ q ∈ queries i, ∀ w, q.Uses w →
      q.answer cdc ≠ shown (cdc.marshalJSON w (w.codec cdc).empty)) :
    (∀ schedule, ((interleaved cdc queries schedule).own i).Done →
        ((interleaved cdc queries schedule).own i).answers
          = (queries i).map (StargateQuery.answer cdc))
      ↔ ∀ j, j ≠ i → ∀ q ∈ queries i, ∀ q' ∈ queries j, ∀ w, q.Uses w → ¬ q'.Uses w := by
  constructor
  · intro hown j hne q hq q' hq' w huses huses'
    obtain ⟨schedule, hdone, hanswers⟩ :=
      exists_schedule_of_shared hserved hshows hne hq hq' huses huses' (hnew q hq w huses)
    exact hanswers (hown schedule hdone)
  · intro hapart schedule hdone
    exact answers_of_apart (hserved i) hapart schedule hdone

/-- `Int.MarshalJSON`: a nil number is shown as zero. -/
def intJSON (x : Option ℤ) : String := "\"" ++ toString (x.getD 0) ++ "\""

/-- `Dec.MarshalJSON`. -/
def decJSON : Option ℤ → String
  | none => "null"
  | some x => "\"" ++ decString ⟨x⟩ ++ "\""

/-- A JSON object of one field. -/
def objectJSON (field value : String) : String := "\x7b\"" ++ field ++ "\":" ++ value ++ "\x7d"

/-- `ProtoMarshalJSON` of the responses; the denomination of a coin is a text of ASCII. -/
def protoMarshalJSON : (w : Whitelisted) → w.Response → Outcome String
  | .swap, (m : CoinMsg) =>
      let denom := String.ofList (m.denom.map fun b => Char.ofNat b.toNat)
      .ok (objectJSON "return_coin"
        ("\x7b\"denom\":\"" ++ denom ++ "\",\"amount\":" ++ intJSON m.amount ++ "\x7d"))
  | .taxCap, (m : Option ℤ) => .ok (objectJSON "tax_cap" (intJSON m))
  | .taxRate, (m : Option ℤ) => .ok (objectJSON "tax_rate" (decJSON m))
  | .exchangeRate, (m : Option ℤ) => .ok (objectJSON "exchange_rate" (decJSON m))

/-- A number as `big.Int` writes it. -/
def bigIntNumber (bits : ℕ) : NumberText bits where
  marshal := Oracle.integerText
  unmarshal b _ := pure (some (Oracle.ofIntegerText b))
  unmarshal_marshal x _ _ := by
    rw [Oracle.ofIntegerText_integerText]
    rfl

/-- The codec of the application. The queries below are read without a failure. -/
def appCdc : Cdc where
  int := bigIntNumber _
  dec := bigIntNumber _
  marshalJSON := protoMarshalJSON
  leftover _ _ m := m

lemma appCdc_shows : Shows appCdc := by
  intro w m _
  cases w with
  | swap => exact ⟨_, rfl⟩
  | taxCap => exact ⟨_, rfl⟩
  | taxRate => exact ⟨_, rfl⟩
  | exchangeRate => exact ⟨_, rfl⟩

/-- A query for the tax rate, answered with a number. -/
def taxRateQuery (x : ℤ) : StargateQuery :=
  ⟨"/terra.treasury.v1beta1.Query/TaxRate", some ((taxRateCodec appCdc).marshal (some x))⟩

section TaxRate

variable {x : ℤ}

/-- The query reaches the object of the tax rate, with bytes that make its number of any other. -/
lemma taxRateQuery_reply (hproper : Whitelisted.taxRate.Proper appCdc (some x)) :
    ∃ bz, (taxRateQuery x).reply = .ok (.taxRate, bz)
      ∧ Overwrites (taxRateCodec appCdc) (some x) bz := by
  obtain ⟨bz, hover⟩ := Whitelisted.taxRate.overwrites hproper
  have hmarshal : (taxRateCodec appCdc).marshal (some x) = .ok bz := hover.marshal_eq
  refine ⟨bz, ?_, hover⟩
  rw [taxRateQuery, hmarshal]
  rfl

lemma taxRateQuery_served (hproper : Whitelisted.taxRate.Proper appCdc (some x)) :
    (taxRateQuery x).Served appCdc := by
  obtain ⟨bz, hreply, hover⟩ := taxRateQuery_reply hproper
  intro w bz' hreply'
  obtain ⟨rfl, rfl⟩ := Prod.mk.inj (Except.ok.inj (hreply.symm.trans hreply'))
  exact ⟨some x, hproper, hover.marshal_eq⟩

end TaxRate

/-- The rates 0.005 and 0.012. -/
def lowRate : ℤ := 5000000000000000

def highRate : ℤ := 12000000000000000

lemma proper_lowRate : Whitelisted.taxRate.Proper appCdc (some lowRate) :=
  ⟨⟨lowRate, rfl, by decide +kernel⟩, by decide +kernel⟩

lemma proper_highRate : Whitelisted.taxRate.Proper appCdc (some highRate) :=
  ⟨⟨highRate, rfl, by decide +kernel⟩, by decide +kernel⟩

/-- A block and a query of the node, at different heights with different rates. -/
def twoHeights : Bool → List StargateQuery
  | true => [taxRateQuery lowRate]
  | false => [taxRateQuery highRate]

/-- In some schedule the block does not get the rate of its own height. -/
theorem answers_twoHeights :
    (taxRateQuery lowRate).answer appCdc = .ok "\x7b\"tax_rate\":\"0.005000000000000000\"\x7d"
      ∧ ∃ schedule, ((interleaved appCdc twoHeights schedule).own true).Done
        ∧ ((interleaved appCdc twoHeights schedule).own true).answers
          ≠ [(taxRateQuery lowRate).answer appCdc] := by
  obtain ⟨bz, hreply, hover⟩ := taxRateQuery_reply proper_lowRate
  obtain ⟨bz', hreply', -⟩ := taxRateQuery_reply proper_highRate
  have hanswer : (taxRateQuery lowRate).answer appCdc
      = .ok "\x7b\"tax_rate\":\"0.005000000000000000\"\x7d" := by
    rw [StargateQuery.answer_eq hreply hover.unmarshal_eq]
    decide +kernel
  refine ⟨hanswer, ?_⟩
  have hserved : ∀ i, ∀ q ∈ twoHeights i, q.Served appCdc := by
    rintro (_ | _) q hq
    · rw [List.mem_singleton.mp hq]
      exact taxRateQuery_served proper_highRate
    · rw [List.mem_singleton.mp hq]
      exact taxRateQuery_served proper_lowRate
  have hnew : ∀ q ∈ twoHeights true, ∀ w, q.Uses w → q.answer appCdc
      ≠ shown (appCdc.marshalJSON w (w.codec appCdc).empty) := by
    rintro q hq w ⟨bz'', huses⟩
    rw [List.mem_singleton.mp hq] at huses ⊢
    obtain ⟨rfl, -⟩ := Prod.mk.inj (Except.ok.inj (hreply.symm.trans huses))
    rw [hanswer]
    decide +kernel
  by_contra hall
  refine (answers_own_iff _ hserved appCdc_shows hnew).mp (fun schedule hdone => ?_) false
    (by decide) _ List.mem_cons_self _ List.mem_cons_self .taxRate ⟨bz, hreply⟩ ⟨bz', hreply'⟩
  exact not_not.mp fun hne => hall ⟨schedule, hdone, hne⟩

end ColumbusCore.Wasm

import Konnekt.Correctness.PreviewAgreement
import Konnekt.Go.FloatText

/-!
# A wired value and the literal of a Write Attribute node

The executor of a Write Attribute node stores the field's own text and falls back to
the wire where that is empty; the preview stores the wire's value. What is stored is
read back as a number where it is the text of one.
-/

namespace Konnekt.Scheduler

open Go

/-! ## Values as a scope gives them back -/

/-- The value a scope has for a text or a number: numeric text is its number. -/
def storedValue : Value → Value
  | .str s => match parseFloat (trimSpace s) with
    | .ok f => .num f
    | .error _ => .str s
  | .int n | .int64 n => .num (.fin n)
  | v => v

/-- Two floating point values of the source are one: their roundings agree. -/
def SameFloat : Float64 → Float64 → Prop
  | .fin p, .fin q => rounded p = rounded q
  | f, g => f = g

def SameValue : Value → Value → Prop
  | .num f, .num g => SameFloat f g
  | v, v' => v = v'

/-- What a wire may carry here: a string without references, or a number of its Go type. -/
def Wireable : Value → Prop
  | .str s => '@' ∉ s.toList
  | .num (.fin q) => IsFloat64 q
  | .num (.inf _) | .num .nan => True
  | .int n | .int64 n => minInt64 ≤ n ∧ n ≤ maxInt64
  | .nil | .bool _ | .other _ => False

/-- The evaluation gives the wired value. -/
def Yields (o : Outcome Value) (v : Value) : Prop :=
  ∃ r, o = .ok r ∧ SameValue r (storedValue v)

theorem sameFloat_refl (f : Float64) : SameFloat f f := by
  cases f <;> rfl

theorem sameValue_refl (v : Value) : SameValue v v := by
  cases v with
  | num f => exact sameFloat_refl f
  | nil | str | int | int64 | bool | other => rfl

theorem yields_of_eq {o : Outcome Value} {v : Value} (h : o = .ok (storedValue v)) :
    Yields o v :=
  ⟨_, h, sameValue_refl _⟩

/-! ## Reading back what is stored -/

section

variable {resolve : String → Outcome Value} {s : String}

/-- Text without references is no expression. -/
theorem resolveCustomValue_text (h : '@' ∉ s.toList) :
    resolveCustomValue resolve s = .ok (storedValue (.str s)) := by
  have hmem : '@' ∉ trim s.toList := by
    obtain ⟨lead, trail, hs, -, -⟩ := exists_trim s.toList
    intro hc
    apply h
    rw [hs]
    exact List.mem_append_right _ (List.mem_append_left _ hc)
  have hbody : customBody s = none := by
    have hopen : ['@', '{'].isPrefixOf (trim s.toList) = false := by
      generalize trim s.toList = t at hmem
      cases t with
      | nil => rfl
      | cons c t =>
        rw [List.mem_cons, not_or] at hmem
        rw [List.isPrefixOf_cons_cons, beq_eq_false_iff_ne.2 hmem.1, Bool.false_and]
    unfold customBody
    simp [hopen, hmem]
  unfold resolveCustomValue storedValue
  rw [hbody]
  dsimp only
  cases parseFloat (trimSpace s) <;> rfl

theorem resolveCustomValue_numeral {r : ℚ} (h : Numeral s r) :
    resolveCustomValue resolve s = .ok (.num (.fin r)) := by
  have hmem : '@' ∉ s.toList := fun hc => (numeralChars_plain _ (h.plain _ hc)).2.1 rfl
  rw [resolveCustomValue_text hmem, storedValue, h.trimSpace_eq, h.reads]

/-- The special values are read back as themselves. -/
theorem resolveCustomValue_special {f : Float64} (h : ∀ q, f ≠ .fin q) :
    formatF f = formatG f ∧ resolveCustomValue resolve (formatG f) = .ok (.num f) := by
  have hword : ∀ w : String, '@' ∉ w.toList → parseFloat (trimSpace w) = .ok f →
      resolveCustomValue resolve w = .ok (.num f) := by
    intro w hw hparse
    rw [resolveCustomValue_text hw, storedValue, hparse]
  cases f with
  | fin q => exact absurd rfl (h q)
  | inf neg =>
    cases neg with
    | true => exact ⟨rfl, hword "-Inf" (by decide) (by decide)⟩
    | false => exact ⟨rfl, hword "+Inf" (by decide) (by decide)⟩
  | nan => exact ⟨rfl, hword "NaN" (by decide) (by decide)⟩

theorem yields_numeral {r q : ℚ} (h : Numeral s r) (hr : rounded r = rounded q) {v : Value}
    (hv : storedValue v = .num (.fin q)) : Yields (resolveCustomValue resolve s) v :=
  ⟨_, resolveCustomValue_numeral h, by rw [hv]; exact hr⟩

end

theorem rounded_of_isFloat64 {q : ℚ} (h : IsFloat64 q) : rounded q = q := by
  unfold rounded
  obtain ⟨hexact, -⟩ := h
  split_ifs with hneg
  · rw [abs_of_neg hneg] at hexact
    rw [hexact, neg_neg]
  · rw [abs_of_nonneg (not_lt.1 hneg)] at hexact
    exact hexact

theorem isFloat64_of_wireable {q : ℚ} (h : Wireable (.num (.fin q))) : IsFloat64 q := by
  unfold Wireable at h
  exact h

/-- The text an executor stores reads back as the value. -/
theorem yields_sprintV {v : Value} (hv : Wireable v) (resolve : String → Outcome Value) :
    Yields (resolveCustomValue resolve v.sprintV) v := by
  cases v with
  | str s =>
    have hs : '@' ∉ s.toList := hv
    exact yields_of_eq (resolveCustomValue_text hs)
  | num f =>
    cases f with
    | fin q =>
      have hfloat := isFloat64_of_wireable hv
      obtain ⟨r, hnumeral, hr⟩ := exists_numeral_formatG hfloat
      exact yields_numeral hnumeral (hr.trans (rounded_of_isFloat64 hfloat).symm) rfl
    | inf neg =>
      have hread := @resolveCustomValue_special resolve (.inf neg) (by simp)
      exact yields_of_eq hread.2
    | nan =>
      have hread := @resolveCustomValue_special resolve .nan (by simp)
      exact yields_of_eq hread.2
  | int n => exact yields_numeral (numeral_toString hv.1 hv.2) rfl rfl
  | int64 n => exact yields_numeral (numeral_toString hv.1 hv.2) rfl rfl
  | nil | bool | other => exact hv.elim

/-- The text a preview stores reads back as the value. -/
theorem yields_toStr {v : Value} (hv : Wireable v) (resolve : String → Outcome Value) :
    Yields (resolveCustomValue resolve (toStr v)) v := by
  cases v with
  | num f =>
    cases f with
    | fin q =>
      unfold toStr
      dsimp only
      split_ifs with hwhole
      · have hq : q = (toInt64 (.fin q) : ℚ) := by simpa [Float64.eq] using hwhole
        have hrange : minInt64 ≤ toInt64 (.fin q) ∧ toInt64 (.fin q) ≤ maxInt64 := by
          unfold toInt64
          dsimp only
          split_ifs with h
          · exact h
          · decide
        exact yields_numeral (numeral_toString hrange.1 hrange.2) (congrArg rounded hq.symm) rfl
      · have hfloat := isFloat64_of_wireable hv
        obtain ⟨r, hnumeral, hr⟩ := exists_numeral_formatF hfloat
        exact yields_numeral hnumeral (hr.trans (rounded_of_isFloat64 hfloat).symm) rfl
    | inf neg =>
      have hread := @resolveCustomValue_special resolve (.inf neg) (by simp)
      rw [← hread.1] at hread
      exact yields_of_eq hread.2
    | nan =>
      have hread := @resolveCustomValue_special resolve .nan (by simp)
      rw [← hread.1] at hread
      exact yields_of_eq hread.2
  | str s => exact yields_sprintV hv resolve
  | int n => exact yields_sprintV hv resolve
  | int64 n => exact yields_sprintV hv resolve
  | nil | bool | other => exact hv.elim

/-! ## Resolving a custom attribute -/

theorem resolve_custom {scope : AttrScope} {name expr : String}
    (h : scope.custom.lookup name = some expr) : scope.resolve name =
      resolveCustomValue (resolveIn scope scope.custom.entries.length [name]) expr := by
  rw [AttrScope.resolve, resolveBudget, resolveIn, h]
  dsimp only
  rw [if_neg List.not_mem_nil]

/-- The literal's own value where `name` is resolved: what its text evaluates to. -/
def literalValue (scope : AttrScope) (name raw : String) : Outcome Value :=
  resolveCustomValue (resolveIn scope scope.custom.entries.length [name]) raw

section

variable {W : Type}

/-! ## The run -/

/-- A Write Attribute node executes into `after`, with `v` on its value port, and defines the
custom attribute `name`. -/
structure WritesWired (h : Host W) (env : RunEnv W) (node : Node) (st after : RunState W)
    (name : String) (v : Value) where
  registry : BuiltinFirst h env.registry
  type : node.type = "data.writeAttribute"
  pulled : RunState W
  pulls : pullDataDependencies env node.id st = .ok pulled
  ctx : ExecContext
  resolves : execContext env pulled node = .ok ctx
  result : ExecResult
  executes : executeNode env node st = .ok (result, after)
  named : trimPrefix (ctx.getString "attribute") "@" = name
  custom : builtinAttrs.lookup name = none
  wired : ctx.dataIn.lookup "value" = some v

variable {h : Host W} {env : RunEnv W} {node : Node} {st after : RunState W} {name : String}
  {v : Value}

/-- The literal of the node, as the executor reads it. -/
def WritesWired.raw (run : WritesWired h env node st after name v) : String :=
  run.ctx.rawString "value"

/-- The wire lies over the literal in the resolved configuration. -/
theorem getString_of_wired {ctx : ExecContext} {pulled : RunState W}
    (hctx : execContext env pulled node = .ok ctx) (hwired : ctx.dataIn.lookup "value" = some v)
    (hv : Wireable v) : ctx.getString "value" = v.sprintV := by
  obtain ⟨config, -, hctx⟩ := Outcome.bind_eq_ok.1 hctx
  cases hctx
  dsimp only at hwired
  have hlookup : (config.overlay (resolveDataInputs node.id env.graph.edges pulled.outputs)).lookup
      "value" = some v := by
    rw [GoMap.lookup_overlay, hwired]
    rfl
  unfold ExecContext.getString
  dsimp only
  rw [hlookup]
  cases v with
  | nil => exact hv.elim
  | str | num | int | int64 | bool | other => rfl

/-- A custom attribute keeps the literal's text, or the resolved value where there is none. -/
theorem execWriteAttribute_custom {e : ExecContext} {w : W}
    (hcustom : builtinAttrs.lookup (trimPrefix (e.getString "attribute") "@") = none) :
    execWriteAttribute h e w = .ok ⟨.done "onComplete", ∅,
      (e.attrs.define (trimPrefix (e.getString "attribute") "@")
        (if e.rawString "value" = "" then e.getString "value" else e.rawString "value")).custom,
      w⟩ := by
  unfold execWriteAttribute
  dsimp only
  rw [hcustom]

/-- The execution defines the attribute as the literal, or as the wire where that is empty. -/
theorem WritesWired.lookup (run : WritesWired h env node st after name v) (hv : Wireable v) :
    after.custom.lookup name = some (if run.raw = "" then v.sprintV else run.raw) := by
  obtain ⟨entry, hentry, htrigger, hexec⟩ : ∃ entry, env.registry.lookup node.type = some entry ∧
      entry.blockDef.isTrigger = false ∧ entry.exec = execWriteAttribute h :=
    ⟨_, run.registry.lookup (by rw [run.type, lookup_builtinRegistry]; rfl), rfl, rfl⟩
  have hrun := run.executes
  unfold executeNode at hrun
  simp only [hentry, htrigger, Bool.false_eq_true, if_false, run.pulls, Outcome.ok_bind,
    run.resolves, hexec] at hrun
  rw [execWriteAttribute_custom (by rw [run.named]; exact run.custom), run.named] at hrun
  have hafter := congrArg (fun o => o.2.custom) (Outcome.ok.inj hrun)
  dsimp only at hafter
  rw [← hafter, getString_of_wired run.resolves run.wired hv]
  exact AList.lookup_insert _

theorem WritesWired.resolve (run : WritesWired h env node st after name v) (hv : Wireable v) :
    Yields ((env.scope after).resolve name) v ↔
      run.raw = "" ∨ Yields (literalValue (env.scope after) name run.raw) v := by
  have hlookup : (env.scope after).custom.lookup name =
      some (if run.raw = "" then v.sprintV else run.raw) := run.lookup hv
  rw [resolve_custom hlookup]
  by_cases hraw : run.raw = ""
  · rw [if_pos hraw]
    exact iff_of_true (yields_sprintV hv _) (.inl hraw)
  · rw [if_neg hraw]
    exact ⟨.inr, fun hliteral => hliteral.resolve_left hraw⟩

/-! ## The preview -/

/-- The value blocks of a registry leave the custom attributes as they are. -/
def ValuesDefineNothing (reg : BlockRegistry W) : Prop :=
  ∀ id entry, reg.lookup id = some entry → isPureData entry.blockDef = true →
    ∀ ctx w r, entry.exec ctx w = .ok r → r.custom = ctx.attrs.custom

theorem pullEdges_custom {ensure : String → RunState W → Outcome (RunState W)} {nodeID : String}
    (hensure : ∀ id st st', ensure id st = .ok st' → st'.custom = st.custom) (edges : List Edge)
    {st st' : RunState W} (hpull : pullEdges ensure nodeID edges st = .ok st') :
    st'.custom = st.custom := by
  induction edges generalizing st with
  | nil =>
    cases hpull
    rfl
  | cons e edges ih =>
    rw [pullEdges] at hpull
    split_ifs at hpull with hinto
    · obtain ⟨mid, hmid, hrest⟩ := Outcome.bind_eq_ok.1 hpull
      rw [ih hrest, hensure _ _ _ hmid]
    · exact ih hpull

theorem ensureDataOutputs_custom (hvalues : ValuesDefineNothing env.registry) (n : Nat)
    (visiting : List String) (id : String) {st st' : RunState W}
    (hensure : ensureDataOutputs env n visiting id st = .ok st') : st'.custom = st.custom := by
  induction n generalizing visiting id st st' with
  | zero => cases hensure
  | succ n ih =>
    rw [ensureDataOutputs] at hensure
    split at hensure
    · cases hensure
      rfl
    · split at hensure
      · cases hensure
        rfl
      · split at hensure
        · cases hensure
          rfl
        · rename_i found _ entry hentry
          split at hensure
          · rename_i hpure
            obtain ⟨mid, hmid, heval⟩ := Outcome.bind_eq_ok.1 hensure
            have hkept := pullEdges_custom (fun other _ _ => ih (id :: visiting) other) _ hmid
            obtain ⟨ctx, hctx, hrest⟩ := Outcome.bind_eq_ok.1 heval
            obtain ⟨r, hr, hst⟩ := Outcome.bind_eq_ok.1 hrest
            cases hst
            obtain ⟨config, -, hctx⟩ := Outcome.bind_eq_ok.1 hctx
            cases hctx
            exact (hvalues _ _ hentry hpure _ _ _ hr).trans hkept
          · cases hensure
            rfl

theorem pullDataDependencies_custom (hvalues : ValuesDefineNothing env.registry) {id : String}
    {st st' : RunState W} (hpull : pullDataDependencies env id st = .ok st') :
    st'.custom = st.custom :=
  pullEdges_custom (fun other _ _ => ensureDataOutputs_custom hvalues _ [] other) _ hpull

/-- A Write Attribute node that carries `v` on its wire where a preview gathers it, and after
which no node of the graph names the attribute `name`. -/
structure PreviewsWired (env : RunEnv W) (node : Node) (w : W) (name : String) (v : Value) where
  values : ValuesDefineNothing env.registry
  before : List Node
  later : List Node
  nodes : env.graph.nodes = before ++ node :: later
  type : node.type = "data.writeAttribute"
  named : writeTarget node.config = name
  ne_empty : name ≠ ""
  custom : builtinAttrs.lookup name = none
  last : ∀ m ∈ later, m.type = "data.writeAttribute" → writeTarget m.config ≠ name
  gathered : RunState W
  gathers : before.foldlM (gatherAttribute env) ⟨∅, ∅, w⟩ = .ok gathered
  pulled : RunState W
  pulls : pullDataDependencies env node.id gathered = .ok pulled
  wired : (resolveDataInputs node.id env.graph.edges pulled.outputs).lookup "value" = some v

/-- A node that names another attribute, or none, leaves this one as it is. -/
theorem lookup_gatherAttribute (hvalues : ValuesDefineNothing env.registry) {m : Node}
    {st st' : RunState W} (hother : m.type = "data.writeAttribute" → writeTarget m.config ≠ name)
    (hgather : gatherAttribute env st m = .ok st') :
    st'.custom.lookup name = st.custom.lookup name := by
  unfold gatherAttribute at hgather
  dsimp only at hgather
  split at hgather
  · cases hgather
    rfl
  · rename_i hwrites
    rw [not_or, not_not] at hwrites
    obtain ⟨mid, hmid, hst⟩ := Outcome.bind_eq_ok.1 hgather
    cases hst
    rw [← pullDataDependencies_custom hvalues hmid]
    exact AList.lookup_insert_ne (Ne.symm (hother hwrites.1))

theorem lookup_gatherAttributes (hvalues : ValuesDefineNothing env.registry) (later : List Node)
    {st st' : RunState W}
    (hother : ∀ m ∈ later, m.type = "data.writeAttribute" → writeTarget m.config ≠ name)
    (hgather : later.foldlM (gatherAttribute env) st = .ok st') :
    st'.custom.lookup name = st.custom.lookup name := by
  induction later generalizing st with
  | nil =>
    cases hgather
    rfl
  | cons m later ih =>
    rw [List.foldlM_cons] at hgather
    obtain ⟨mid, hmid, hrest⟩ := Outcome.bind_eq_ok.1 hgather
    rw [ih (fun k hk => hother k (List.mem_cons_of_mem _ hk)) hrest,
      lookup_gatherAttribute hvalues (hother m List.mem_cons_self) hmid]

/-- A preview defines the attribute as the wire. -/
theorem PreviewsWired.lookup {w : W} (preview : PreviewsWired env node w name v)
    (hv : Wireable v) {nodeID : String} {st : RunState W}
    (hst : previewState env nodeID w = .ok st) : st.custom.lookup name = some (toStr v) := by
  unfold previewState at hst
  obtain ⟨gathered, hgathered, hpull⟩ := Outcome.bind_eq_ok.1 hst
  rw [preview.nodes, List.foldlM_append, preview.gathers, Outcome.ok_bind,
    List.foldlM_cons] at hgathered
  obtain ⟨mid, hmid, hlater⟩ := Outcome.bind_eq_ok.1 hgathered
  rw [pullDataDependencies_custom preview.values hpull,
    lookup_gatherAttributes preview.values preview.later preview.last hlater]
  have hvalue : configValue
      (resolveDataInputs node.id env.graph.edges preview.pulled.outputs) "value" = v := by
    rw [configValue, preview.wired]
    rfl
  have hwrites : ¬ (node.type ≠ "data.writeAttribute" ∨ name = "" ∨
      (builtinAttrs.lookup name).isSome = true) := by
    simp [preview.type, preview.ne_empty, preview.custom]
  unfold gatherAttribute at hmid
  dsimp only at hmid
  rw [preview.named, if_neg hwrites, preview.pulls, Outcome.ok_bind, hvalue] at hmid
  cases hmid
  dsimp only
  cases v with
  | nil => exact hv.elim
  | str | num | int | int64 | bool | other => exact AList.lookup_insert _

/-- The row of an attribute shows the value it resolves to. -/
def Shows (row : AttrValue) (v : Value) : Prop :=
  row.error = "" ∧ ∃ r, row.value = toStr r ∧ SameValue r (storedValue v)

/-- A row has its attribute's name, and the text of what that resolves to. -/
theorem attrRow_spec {scope : AttrScope} {n : String} {row : AttrValue}
    (hrow : attrRow n scope = .ok row) : row.name = n ∧
      ∀ r, scope.resolve n = .ok r → row.error = "" ∧ row.value = toStr r := by
  unfold attrRow at hrow
  cases hresolve : scope.resolve n with
  | panic m => simp [hresolve] at hrow
  | err m =>
    cases hknown : builtinAttrs.lookup n <;> simp only [hresolve, hknown] at hrow <;>
      cases hrow <;> simp
  | ok v =>
    cases hknown : builtinAttrs.lookup n <;> simp only [hresolve, hknown] at hrow <;>
      cases hrow <;> simp

theorem shows_of_attrRow {scope : AttrScope} {n : String} {row : AttrValue}
    (hrow : attrRow n scope = .ok row) (hyields : Yields (scope.resolve n) v) : Shows row v := by
  obtain ⟨r, hresolve, hsame⟩ := hyields
  obtain ⟨herror, hvalue⟩ := (attrRow_spec hrow).2 r hresolve
  exact ⟨herror, r, hvalue, hsame⟩

theorem attrRow_of_mem {scope : AttrScope} (names : List String) {rows : List AttrValue}
    (hrows : names.mapM (fun n => attrRow n scope) = .ok rows) {row : AttrValue}
    (hmem : row ∈ rows) : attrRow row.name scope = .ok row := by
  induction names generalizing rows with
  | nil =>
    cases hrows
    cases hmem
  | cons n names ih =>
    rw [List.mapM_cons] at hrows
    obtain ⟨head, hhead, hrest⟩ := Outcome.bind_eq_ok.1 hrows
    obtain ⟨tail, htail, hrows⟩ := Outcome.bind_eq_ok.1 hrest
    cases hrows
    rw [List.mem_cons] at hmem
    obtain rfl | hmem := hmem
    · rw [(attrRow_spec hhead).1]
      exact hhead
    · exact ih htail hmem

/-- A custom attribute's rows of a preview are those of its scope. -/
theorem attrRow_of_previewAttributes {n : Node} {config : GoMap Value} {scope : AttrScope}
    {rows : List AttrValue} {writes : Bool}
    (hrows : previewAttributes n config scope = .ok (rows, writes)) {row : AttrValue}
    (hmem : row ∈ rows) (hcustom : builtinAttrs.lookup row.name = none) :
    attrRow row.name scope = .ok row := by
  obtain ⟨mentioned, hmentioned, hrest⟩ := Outcome.bind_eq_ok.1 hrows
  generalize (if n.type = "data.writeAttribute" then writeTarget config else "") = target at hrest
  by_cases htarget : target = ""
  · rw [if_pos htarget] at hrest
    cases hrest
    exact attrRow_of_mem _ hmentioned hmem
  · rw [if_neg htarget] at hrest
    obtain ⟨⟨written, may⟩, hwritten, hrest⟩ := Outcome.bind_eq_ok.1 hrest
    cases hrest
    rw [List.mem_cons] at hmem
    obtain rfl | hmem := hmem
    · unfold writeRow at hwritten
      split at hwritten
      · rename_i known hknown
        split at hwritten
        · cases hwritten
          rw [hknown] at hcustom
          cases hcustom
        · cases hwritten
          rw [hknown] at hcustom
          cases hcustom
      · obtain ⟨read, hread, hwritten⟩ := Outcome.bind_eq_ok.1 hwritten
        cases hwritten
        rw [(attrRow_spec hread).1]
        exact hread
    · exact attrRow_of_mem _ hmentioned hmem

/-- A preview's rows of the attribute show the wired value. -/
theorem PreviewsWired.shows {svc : Services W} {reg : BlockRegistry W} {g : Graph}
    {w w' : W} {nodeID : String} {p : NodePreview}
    (preview : PreviewsWired (previewEnv svc reg g w) node w name v) (hv : Wireable v)
    (hpreview : previewNode svc reg g nodeID w = .ok (p, w')) {row : AttrValue}
    (hmem : row ∈ p.attributes) (hname : row.name = name) : Shows row v := by
  unfold previewNode at hpreview
  split at hpreview
  · cases hpreview
  · rename_i n _
    obtain ⟨st, hst, hrest⟩ := Outcome.bind_eq_ok.1 hpreview
    obtain ⟨ctx, hctx, hrest⟩ := Outcome.bind_eq_ok.1 hrest
    obtain ⟨⟨rows, writes⟩, hrows, hrest⟩ := Outcome.bind_eq_ok.1 hrest
    obtain ⟨⟨⟨console, succeeds⟩, w''⟩, -, hrest⟩ := Outcome.bind_eq_ok.1 hrest
    cases hrest
    obtain ⟨config, -, hctx⟩ := Outcome.bind_eq_ok.1 hctx
    cases hctx
    have hrow := attrRow_of_previewAttributes hrows hmem (by rw [hname]; exact preview.custom)
    apply shows_of_attrRow hrow
    have hlookup : ((previewEnv svc reg g w).scope st).custom.lookup row.name =
        some (toStr v) := by
      rw [hname]
      exact preview.lookup hv hst
    rw [resolve_custom hlookup]
    exact yields_toStr hv _

end

/-! ## The precedence -/

/-- A wired value stands for the attribute, in the run and in the previews of its graph,
exactly where the literal is empty or has that value itself. -/
theorem wired_value_outranks_literal {W : Type} {h : Host W} {env : RunEnv W} {node : Node}
    {st after : RunState W} {name : String} {v : Value} (hv : Wireable v)
    (run : WritesWired h env node st after name v) {w w' : W}
    (preview : PreviewsWired (previewEnv env.svc env.registry env.graph w) node w name v)
    {nodeID : String} {p : NodePreview}
    (hpreview : previewNode env.svc env.registry env.graph nodeID w = .ok (p, w')) :
    (Yields ((env.scope after).resolve name) v ∧
        ∀ row ∈ p.attributes, row.name = name → Shows row v) ↔
      run.raw = "" ∨ Yields (literalValue (env.scope after) name run.raw) v := by
  rw [run.resolve hv]
  constructor
  · exact fun hboth => hboth.1
  · exact fun hliteral =>
      ⟨hliteral, fun row hmem hname => preview.shows hv hpreview hmem hname⟩

/-! ## A constant wired over a literal -/

/-- The built-in value blocks define no attribute. -/
theorem valuesDefineNothing_builtin {W : Type} (h : Host W) :
    ValuesDefineNothing (builtinRegistry h) := by
  have hfinish : ∀ {e : ExecContext} {w' : W} {res : ExecResult} {out : List (String × Value)}
      {r : Executed W}, finish e w' res out = .ok r → r.custom = e.attrs.custom := fun h => by
    cases h
    rfl
  intro id entry hentry hpure ctx w r hr
  rw [lookup_builtinRegistry] at hentry
  obtain ⟨b, hfind, rfl⟩ := Option.map_eq_some_iff.1 hentry
  have hmem := List.mem_of_find?_eq_some hfind
  dsimp only at hpure hr
  rw [builtinBlocks, List.mem_append] at hmem
  cases hmem with
  | inl hmem =>
    -- triggers and actions have control ports
    have hcontrol : ((triggerBlocks ++ actionBlocks h).map Prod.fst).all
        (fun blockDef => !isPureData blockDef) = true := rfl
    have hnot := List.all_eq_true.1 hcontrol _ (List.mem_map_of_mem hmem)
    rw [hpure] at hnot
    cases hnot
  | inr hmem =>
    simp only [dataBlocks, List.mem_cons, List.not_mem_nil, or_false] at hmem
    obtain rfl | rfl | rfl | rfl := hmem
    · change execServerAttribute ctx w = .ok r at hr
      unfold execServerAttribute at hr
      dsimp only at hr
      split at hr
      · exact hfinish hr
      · cases hr
      · split at hr
        · exact hfinish hr
        · exact hfinish hr
    · change execConstant ctx w = .ok r at hr
      unfold execConstant at hr
      dsimp only at hr
      repeat' split at hr
      all_goals exact hfinish hr
    · exact hfinish hr
    · change execMathOp ctx w = .ok r at hr
      unfold execMathOp at hr
      split at hr
      · exact hfinish hr
      · exact hfinish hr
      · cases hr

/-- A Write Attribute node with the given literal. -/
def writeNode (lit : String) : Node :=
  ⟨"w", "data.writeAttribute", GoMap.ofList [("attribute", .str "n"), ("value", .str lit)]⟩

/-- The constant seven. -/
def sevenNode : Node :=
  ⟨"c", "data.constant", GoMap.ofList [("type", .str "Float"), ("value", .str "7")]⟩

/-- The constant is wired over the literal. -/
def wiredGraph (lit : String) : Graph where
  id := "g"
  name := "write"
  serverID := "s1"
  enabled := true
  nodes := [sevenNode, writeNode lit]
  edges := [⟨"1", "data", "c", "value", "w", "value"⟩]
  createdAt := 0
  updatedAt := 0

def wiredEnv (lit : String) : RunEnv Unit :=
  previewEnv idleHost.toServices (builtinRegistry idleHost) (wiredGraph lit) ()

/-- What the execution and the preview of the node come across. -/
private def wiredReading (lit : String) :
    Outcome ((String × Option Value × String) × Option Value × String × String) := do
  let pulled ← pullDataDependencies (wiredEnv lit) "w" ⟨∅, ∅, ()⟩
  let ctx ← execContext (wiredEnv lit) pulled (writeNode lit)
  let _ ← executeNode (wiredEnv lit) (writeNode lit) ⟨∅, ∅, ()⟩
  let gathered ← [sevenNode].foldlM (gatherAttribute (wiredEnv lit)) ⟨∅, ∅, ()⟩
  let previewed ← pullDataDependencies (wiredEnv lit) "w" gathered
  let st ← previewState (wiredEnv lit) "w" ()
  let shown ← execContext (wiredEnv lit) st (writeNode lit)
  let (row, _) ← writeRow (writeTarget shown.config) shown.config shown.attrs
  return ((trimPrefix (ctx.getString "attribute") "@", ctx.dataIn.lookup "value",
      ctx.rawString "value"),
    (resolveDataInputs "w" (wiredGraph lit).edges previewed.outputs).lookup "value",
    writeTarget shown.config, row.name)

private theorem wiredReading_five :
    wiredReading "5" = .ok (("n", some (.num 7), "5"), some (.num 7), "n", "n") := by
  decide +kernel

private theorem wiredReading_empty :
    wiredReading "" = .ok (("n", some (.num 7), ""), some (.num 7), "n", "n") := by
  decide +kernel

/-- The node executed and previewed, with its literal read as it is. -/
private theorem exists_wired {lit : String}
    (hread : wiredReading lit = .ok (("n", some (.num 7), lit), some (.num 7), "n", "n"))
    (hrefs : refNames (writeNode lit).config = []) :
    ∃ (after : RunState Unit)
      (run : WritesWired idleHost (wiredEnv lit) (writeNode lit) ⟨∅, ∅, ()⟩ after "n" (.num 7))
      (_ : PreviewsWired (wiredEnv lit) (writeNode lit) () "n" (.num 7)) (p : NodePreview),
      run.raw = lit ∧ (∃ row ∈ p.attributes, row.name = "n") ∧
        previewNode idleHost.toServices (builtinRegistry idleHost) (wiredGraph lit) "w" () =
          .ok (p, ()) := by
  obtain ⟨pulled, hpulled, hread⟩ := Outcome.bind_eq_ok.1 hread
  obtain ⟨ctx, hctx, hread⟩ := Outcome.bind_eq_ok.1 hread
  obtain ⟨⟨result, after⟩, hexec, hread⟩ := Outcome.bind_eq_ok.1 hread
  obtain ⟨gathered, hgathered, hread⟩ := Outcome.bind_eq_ok.1 hread
  obtain ⟨previewed, hpreviewed, hread⟩ := Outcome.bind_eq_ok.1 hread
  obtain ⟨st, hst, hread⟩ := Outcome.bind_eq_ok.1 hread
  obtain ⟨shown, hshown, hread⟩ := Outcome.bind_eq_ok.1 hread
  obtain ⟨⟨row, may⟩, hrow, hread⟩ := Outcome.bind_eq_ok.1 hread
  simp only [Outcome.pure_eq_ok, Outcome.ok.injEq, Prod.mk.injEq] at hread
  obtain ⟨⟨hnamed, hwired, hraw⟩, hgather, htarget, hname⟩ := hread
  have hattrs : previewAttributes (writeNode lit) shown.config shown.attrs = .ok ([row], may) := by
    have htype : (writeNode lit).type = "data.writeAttribute" := rfl
    unfold previewAttributes
    simp only [hrefs, htype, if_true, htarget, List.filter_nil, List.mergeSort_nil, List.mapM_nil,
      Outcome.pure_eq_ok, Outcome.ok_bind]
    rw [htarget] at hrow
    rw [if_neg (by decide), hrow]
    rfl
  have hpreview : ∃ p, p.attributes = [row] ∧
      previewNode idleHost.toServices (builtinRegistry idleHost) (wiredGraph lit) "w" () =
        .ok (p, ()) := by
    unfold previewNode
    rw [show (wiredGraph lit).nodeByID "w" = some (writeNode lit) from rfl]
    simp only [show previewEnv idleHost.toServices (builtinRegistry idleHost) (wiredGraph lit) () =
      wiredEnv lit from rfl, hst, hshown, hattrs, Outcome.ok_bind]
    exact ⟨_, rfl, rfl⟩
  obtain ⟨p, hrows, hpreview⟩ := hpreview
  have htext : writeTarget (writeNode lit).config = "n" := by
    have hvalue : configValue (writeNode lit).config "attribute" = .str "n" := rfl
    rw [writeTarget, hvalue]
    decide
  refine ⟨after,
    { registry := .builtin, type := rfl, pulled := pulled, pulls := hpulled, ctx := ctx,
      resolves := hctx, result := result, executes := hexec, named := hnamed, custom := rfl,
      wired := hwired },
    { values := valuesDefineNothing_builtin idleHost, before := [sevenNode], later := [],
      nodes := rfl, type := rfl, named := htext, ne_empty := by decide, custom := rfl,
      last := by simp, gathered := gathered, gathers := hgathered, pulled := previewed,
      pulls := hpreviewed, wired := hgather }, p, hraw, ⟨row, ?_, hname⟩, hpreview⟩
  rw [hrows]
  exact List.mem_singleton_self row

/-- A constant seven wired over the literal five: the run has five, the preview seven. -/
theorem not_wired_value_outranks_literal : ∃ (after : RunState Unit)
    (_ : WritesWired idleHost (wiredEnv "5") (writeNode "5") ⟨∅, ∅, ()⟩ after "n" (.num 7))
    (_ : PreviewsWired (wiredEnv "5") (writeNode "5") () "n" (.num 7)) (p : NodePreview),
    previewNode idleHost.toServices (builtinRegistry idleHost) (wiredGraph "5") "w" () =
        .ok (p, ()) ∧
      ¬ (Yields (((wiredEnv "5").scope after).resolve "n") (.num 7) ∧
        ∀ row ∈ p.attributes, row.name = "n" → Shows row (.num 7)) := by
  obtain ⟨after, run, preview, p, hraw, -, hpreview⟩ :=
    exists_wired wiredReading_five (by decide +kernel)
  refine ⟨after, run, preview, p, hpreview, fun hboth => ?_⟩
  have hseven : Wireable (.num 7) := by
    show IsFloat64 7
    exact ⟨by decide +kernel, by decide +kernel⟩
  obtain hempty | ⟨r, hvalue, hsame⟩ := (run.resolve hseven).1 hboth.1
  · rw [hraw] at hempty
    exact absurd hempty (by decide)
  · rw [hraw, literalValue, resolveCustomValue_text (by decide)] at hvalue
    have hfive : storedValue (.str "5") = .num 5 := by decide +kernel
    rw [hfive] at hvalue
    cases hvalue
    have hrounded : rounded 5 = rounded 7 := hsame
    exact absurd hrounded (by decide +kernel)

/-- Without a literal both have the wired seven. -/
theorem wired_value_outranks_literal_empty : ∃ (after : RunState Unit) (p : NodePreview),
    previewNode idleHost.toServices (builtinRegistry idleHost) (wiredGraph "") "w" () =
        .ok (p, ()) ∧
      Yields (((wiredEnv "").scope after).resolve "n") (.num 7) ∧
      ∃ row ∈ p.attributes, row.name = "n" ∧ Shows row (.num 7) := by
  obtain ⟨after, run, preview, p, hraw, ⟨row, hmem, hname⟩, hpreview⟩ :=
    exists_wired wiredReading_empty (by decide +kernel)
  have hseven : Wireable (.num 7) := by
    show IsFloat64 7
    exact ⟨by decide +kernel, by decide +kernel⟩
  have hboth := (wired_value_outranks_literal hseven run preview hpreview).2 (.inl hraw)
  exact ⟨after, p, hpreview, hboth.1, row, hmem, hname, hboth.2 row hmem hname⟩

end Konnekt.Scheduler

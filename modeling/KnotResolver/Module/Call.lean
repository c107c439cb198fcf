import KnotResolver.Text.CString

/-! `kr_module_call` of `lib/utils.c`: a call of a module's property, by the module's name and
the property's name.  The loaded modules are searched in order and only the first module of the
name is asked for the property (`krModuleCall_first`); its properties are searched in order, and
the first of the name that has a callback answers, even with `NULL` (`callprop_eq_some_iff`). -/

namespace KnotResolver

/-- `strcmp(a, b) == 0`: the two strings are equal. -/
def strcmpEq (a b : List UInt8) : Bool := cString a == cString b

/-- `struct kr_prop`: a property's name and its callback `cb(env, module, input)`, the module and
the context being fixed for one call; `none` is `NULL`, for the callback and for what it
returns. -/
structure KrProp where
  name : List UInt8
  cb : Option (List UInt8 → Option (List UInt8))

/-- `struct kr_module`: its name and the properties `module->props()` lists before the entry
without a name; `none` where `module->props` or the array it returns is `NULL`. -/
structure KrModule where
  name : List UInt8
  props : Option (List KrProp)

/-- The loop of `callprop` over the properties. -/
def callpropLoop (prop input : List UInt8) : List KrProp → Option (List UInt8)
  | [] => none
  | p :: ps =>
    match p.cb with
    | some cb => if strcmpEq p.name prop then cb input else callpropLoop prop input ps
    | none => callpropLoop prop input ps

/-- `callprop(module, prop, input, env)`. -/
def callprop (module : KrModule) (prop input : List UInt8) : Option (List UInt8) :=
  match module.props with
  | none => none
  | some props => callpropLoop prop input props

/-- The loop of `kr_module_call` over the loaded modules. -/
def moduleCallLoop (module prop input : List UInt8) : List KrModule → Option (List UInt8)
  | [] => none
  | m :: ms => if strcmpEq m.name module then callprop m prop input
    else moduleCallLoop module prop input ms

/-- `kr_module_call(ctx, module, prop, input)`, `modules` being `ctx->modules`, `none` for
`NULL`. -/
def krModuleCall (modules : Option (List KrModule)) (module prop input : List UInt8) :
    Option (List UInt8) :=
  match modules with
  | none => none
  | some mods => moduleCallLoop module prop input mods

/-- Only the first module of the name is asked: whatever follows it, and whatever properties
later modules of the same name have, the call is that module's. -/
theorem krModuleCall_first {pre post : List KrModule} {m : KrModule} {module : List UInt8}
    (hpre : ∀ m' ∈ pre, strcmpEq m'.name module = false) (hm : strcmpEq m.name module = true)
    (prop input : List UInt8) :
    krModuleCall (some (pre ++ m :: post)) module prop input = callprop m prop input := by
  simp only [krModuleCall]
  induction pre with
  | nil => simp [moduleCallLoop, hm]
  | cons m' pre ih =>
    simp only [List.mem_cons, forall_eq_or_imp] at hpre
    simp [moduleCallLoop, hpre.1, ih hpre.2]

/-- Modules `h`, `s` and `s` again: the call of `s` is the first `s`'s, whose property `l`
answers `1`. -/
theorem krModuleCall_first_example :
    (∀ m' ∈ [(⟨[104], none⟩ : KrModule)], strcmpEq m'.name [115] = false) ∧
      strcmpEq [115] [115] = true ∧
      krModuleCall (some ([⟨[104], none⟩] ++ ⟨[115], some [⟨[108], some fun _ => some [49]⟩]⟩ ::
          [⟨[115], none⟩])) [115] [108] [] =
        callprop ⟨[115], some [⟨[108], some fun _ => some [49]⟩]⟩ [108] [] :=
  have hpre : ∀ m' ∈ [(⟨[104], none⟩ : KrModule)], strcmpEq m'.name [115] = false := by decide
  have hm : strcmpEq [115] [115] = true := by decide
  ⟨hpre, hm, krModuleCall_first hpre hm [108] []⟩

/-- The loop of `callprop` answers with the first property of the name that has a callback. -/
theorem callpropLoop_eq_some_iff {prop input : List UInt8} {out : List UInt8} :
    ∀ props : List KrProp, callpropLoop prop input props = some out ↔
      ∃ pre p post cb, props = pre ++ p :: post ∧
        (∀ q ∈ pre, q.cb = none ∨ strcmpEq q.name prop = false) ∧
        p.cb = some cb ∧ strcmpEq p.name prop = true ∧ cb input = some out
  | [] => by simp [callpropLoop]
  | p :: ps => by
    have ih : callpropLoop prop input ps = some out ↔ _ := callpropLoop_eq_some_iff ps
    simp only [callpropLoop]
    constructor
    · intro h
      split at h
      · rename_i cb hcb
        split_ifs at h with hname
        · exact ⟨[], p, ps, cb, rfl, by simp, hcb, hname, h⟩
        · obtain ⟨pre, q, post, cb', rfl, hpre, hq⟩ := ih.mp h
          refine ⟨p :: pre, q, post, cb', rfl, ?_, hq⟩
          simp only [List.mem_cons, forall_eq_or_imp]
          exact ⟨.inr (by simpa using hname), hpre⟩
      · rename_i hcb
        obtain ⟨pre, q, post, cb', rfl, hpre, hq⟩ := ih.mp h
        refine ⟨p :: pre, q, post, cb', rfl, ?_, hq⟩
        simp only [List.mem_cons, forall_eq_or_imp]
        exact ⟨.inl hcb, hpre⟩
    · rintro ⟨pre, q, post, cb, hsplit, hpre, hcb, hname, hout⟩
      cases pre with
      | nil =>
        simp only [List.nil_append, List.cons.injEq] at hsplit
        obtain ⟨rfl, rfl⟩ := hsplit
        simp [hcb, hname, hout]
      | cons r pre =>
        simp only [List.cons_append, List.cons.injEq] at hsplit
        obtain ⟨rfl, rfl⟩ := hsplit
        simp only [List.mem_cons, forall_eq_or_imp] at hpre
        have hrest := ih.mpr ⟨pre, q, post, cb, rfl, hpre.2, hcb, hname, hout⟩
        rcases hpre.1 with hnone | hne
        · simp [hnone, hrest]
        · split
          · simp [hne, hrest]
          · exact hrest

/-- `callprop` answers with the first property of the name that has a callback. -/
theorem callprop_eq_some_iff {module : KrModule} {prop input out : List UInt8} :
    callprop module prop input = some out ↔
      ∃ props, module.props = some props ∧ ∃ pre p post cb, props = pre ++ p :: post ∧
        (∀ q ∈ pre, q.cb = none ∨ strcmpEq q.name prop = false) ∧
        p.cb = some cb ∧ strcmpEq p.name prop = true ∧ cb input = some out := by
  unfold callprop
  split
  · simp_all
  · rename_i props hprops
    simp only [hprops, Option.some.injEq, exists_eq_left']
    exact callpropLoop_eq_some_iff props

end KnotResolver

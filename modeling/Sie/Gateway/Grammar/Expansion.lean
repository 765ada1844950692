import Sie.Gateway.Grammar

/-!
# Reference expansion keeps the meaning of a schema

What `parse_grammar` makes of a JSON schema says about instances what the schema says.
`Expands root part out` describes the expansion of a part of the document `root`, and the two
passes are related to it once: the expansion computes it, and the meaning of a part and of its
expansion agree by induction on it.

The expansion reads a reference as a plain JSON pointer into the whole document.  Draft 2020-12
decodes `%` escapes first and starts at the nearest enclosing `$id`, so the two readings agree
on documents with `Plain` references only.
-/

namespace Sie.Gateway.Grammar

open Sie.Lib Sie.Lib.JsonSchema List Json Option

/-! ### What the expansion is -/

/-- The expansion of a part of the document `root`: data stays as it is, tables of schemas keep
their names, a schema object keeps its keywords except definitions, and a reference becomes its
target, joined by `allOf` with the keywords beside it. -/
inductive Expands (root : Json) : Part → Json → Prop
  | payload (v : Json) : Expands root (.value .other v) v
  | scalar {v : Json} (harr : ∀ vs, v ≠ .arr vs) (hobj : ∀ fs, v ≠ .obj fs) :
      Expands root (.value .schema v) v
  | tuple {vs outs : List Json} (h : Expands root (.items vs) (.arr outs)) :
      Expands root (.value .schema (.arr vs)) (.arr outs)
  | list {vs outs : List Json} (h : Expands root (.items vs) (.arr outs)) :
      Expands root (.value .schemaArray (.arr vs)) (.arr outs)
  | notList {v : Json} (harr : ∀ vs, v ≠ .arr vs) : Expands root (.value .schemaArray v) v
  | map {fs outs : List (String × Json)} (h : Expands root (.fields .schemaMap fs) (.obj outs)) :
      Expands root (.value .schemaMap (.obj fs)) (.obj outs)
  | notMap {v : Json} (hobj : ∀ fs, v ≠ .obj fs) : Expands root (.value .schemaMap v) v
  | object {fs outs : List (String × Json)} (href : fs.lookup "$ref" = none)
      (h : Expands root (.fields .schema (assertions fs)) (.obj outs)) :
      Expands root (.value .schema (.obj fs)) (.obj outs)
  | refAlone {fs : List (String × Json)} {r : String} {fragment : List Char} {target out : Json}
      (href : fs.lookup "$ref" = some (.str r)) (hr : r.toList = '#' :: fragment)
      (htarget : root.pointer (String.ofList fragment) = some target) (halone : assertions fs = [])
      (h : Expands root (.value .schema target) out) :
      Expands root (.value .schema (.obj fs)) out
  | refBeside {fs outs : List (String × Json)} {r : String} {fragment : List Char}
      {target out : Json} (href : fs.lookup "$ref" = some (.str r))
      (hr : r.toList = '#' :: fragment)
      (htarget : root.pointer (String.ofList fragment) = some target)
      (h : Expands root (.value .schema target) out)
      (hbeside : Expands root (.fields .schema (assertions fs)) (.obj outs)) :
      Expands root (.value .schema (.obj fs)) (.obj [("allOf", .arr [out, .obj outs])])
  | itemsNil : Expands root (.items []) (.arr [])
  | itemsCons {v out : Json} {vs outs : List Json} (hv : Expands root (.value .schema v) out)
      (h : Expands root (.items vs) (.arr outs)) :
      Expands root (.items (v :: vs)) (.arr (out :: outs))
  | fieldsNil (p : Position) : Expands root (.fields p []) (.obj [])
  | fieldsCons {p : Position} {k : String} {v out : Json} {fs outs : List (String × Json)}
      (hv : Expands root (.value (p.child k) v) out)
      (h : Expands root (.fields p fs) (.obj outs)) :
      Expands root (.fields p ((k, v) :: fs)) (.obj ((k, out) :: outs))

theorem schemaChildContext_eq (p : Position) (k : String) : schemaChildContext p k = p.child k := by
  unfold schemaChildContext Position.child
  cases p with
  | schema =>
    dsimp only
    split <;> simp_all
  | _ => rfl

theorem itemContext_eq (p : Position) : itemContext p = p.item := by
  cases p <;> rfl

/-! ### One call of the recursion -/

theorem bind_eq_ok {ε α β : Type} {x : Except ε α} {f : α → Except ε β} {b : β} :
    (x >>= f) = .ok b ↔ ∃ a, x = .ok a ∧ f a = .ok b := by
  cases x <;> simp [Bind.bind, Except.bind]

section
variable {root : Json} {left : ℕ} {stack : List String} {path : String} {p : Position}
  {v out : Json} {fs outs : List (String × Json)} {n n' : ℕ} {vs : List Json} {i : ℕ}

theorem inner_zero_ne_ok : dereferenceSchemaRefsInner root 0 stack path p v n ≠ .ok (out, n') := by
  unfold dereferenceSchemaRefsInner
  split <;> simp

/-- An object without a reference. -/
theorem inner_obj_eq_ok
    (h : dereferenceSchemaRefsInner root (left + 1) stack path p (.obj fs) n = .ok (out, n'))
    (href : p = .schema → fs.lookup "$ref" = none) :
    ∃ outs, out = .obj outs ∧ dereferenceFields (dereferenceSchemaRefsInner root left stack) p path
      (keptFields p fs) (n + 1) = .ok (outs, n') := by
  have hnone : (if p = .schema then fs.lookup "$ref" else none) = none := by
    split
    case isTrue hp => exact href hp
    case isFalse => rfl
  rw [dereferenceSchemaRefsInner] at h
  split at h
  · cases h
  simp only [hnone, bind_eq_ok] at h
  obtain ⟨⟨outs, m⟩, hfields, ⟨⟩⟩ := h
  exact ⟨outs, rfl, hfields⟩

theorem inner_arr_eq_ok
    (h : dereferenceSchemaRefsInner root (left + 1) stack path p (.arr vs) n = .ok (out, n')) :
    ∃ outs, out = .arr outs ∧ dereferenceItems (dereferenceSchemaRefsInner root left stack) p path
      0 vs (n + 1) = .ok (outs, n') := by
  rw [dereferenceSchemaRefsInner] at h
  split at h
  · cases h
  simp only [bind_eq_ok] at h
  obtain ⟨⟨outs, m⟩, hitems, ⟨⟩⟩ := h
  exact ⟨outs, rfl, hitems⟩

theorem inner_scalar_eq_ok
    (h : dereferenceSchemaRefsInner root (left + 1) stack path p v n = .ok (out, n'))
    (harr : ∀ vs, v ≠ .arr vs) (hobj : ∀ fs, v ≠ .obj fs) : out = v := by
  rw [dereferenceSchemaRefsInner] at h
  · split at h
    · cases h
    · cases h
      rfl
  · exact hobj
  · exact harr

/-- The target of a reference that is followed. -/
theorem refTarget_eq_ok {ref target : Json} {pointer : String}
    (h : refTarget root path stack ref = .ok (pointer, target)) :
    ∃ r fragment, ref = .str r ∧ r.toList = '#' :: fragment ∧
      root.pointer (String.ofList fragment) = some target := by
  unfold refTarget at h
  split at h
  case h_2 => cases h
  case h_1 r =>
    dsimp only at h
    split at h
    case h_2 => cases h
    case h_1 fragment hr =>
      refine ⟨r, fragment, rfl, hr, ?_⟩
      split at h
      · cases h
      split at h
      · cases h
      split at h <;> cases h
      case h_2 t ht => exact ht

theorem siblingFields_eq : siblingFields fs = assertions fs := by
  simp [siblingFields, assertions]

/-- A schema object with a reference. -/
theorem inner_ref_eq_ok {ref : Json} (href : fs.lookup "$ref" = some ref)
    (h : dereferenceSchemaRefsInner root (left + 1) stack path .schema (.obj fs) n =
      .ok (out, n')) :
    ∃ r fragment target pointer resolved m outs, ref = .str r ∧ r.toList = '#' :: fragment ∧
      root.pointer (String.ofList fragment) = some target ∧
      dereferenceSchemaRefsInner root left (pointer :: stack) path .schema target (n + 1) =
        .ok (resolved, m) ∧
      dereferenceFields (dereferenceSchemaRefsInner root left stack) .schema path (assertions fs)
        m = .ok (outs, n') ∧ out = if outs.isEmpty then resolved
        else .obj [("allOf", .arr [resolved, .obj outs])] := by
  rw [dereferenceSchemaRefsInner] at h
  split at h
  · cases h
  simp only [if_true, href, bind_eq_ok, siblingFields_eq] at h
  obtain ⟨⟨pointer, target⟩, htarget, ⟨resolved, m⟩, hresolved, ⟨outs, m'⟩, houts, hout⟩ := h
  obtain ⟨r, fragment, hr, hfragment, hpointer⟩ := refTarget_eq_ok htarget
  refine ⟨r, fragment, target, pointer, resolved, m, outs, hr, hfragment, hpointer, hresolved, ?_⟩
  split at hout
  case isTrue hempty =>
    cases hout
    exact ⟨houts, by rw [if_pos hempty]⟩
  case isFalse hempty =>
    cases hout
    exact ⟨houts, by rw [if_neg hempty]⟩

/-! ### The loops -/

theorem fields_cons_eq_ok {inner : Visit Json} {k : String}
    (h : dereferenceFields inner p path ((k, v) :: fs) n = .ok (outs, n')) :
    ∃ out rest m, outs = (k, out) :: rest ∧
      inner (path ++ "." ++ k) (p.child k) v n = .ok (out, m) ∧
      dereferenceFields inner p path fs m = .ok (rest, n') := by
  simp only [dereferenceFields, bind_eq_ok, schemaChildContext_eq] at h
  obtain ⟨⟨out, m⟩, hv, ⟨rest, m'⟩, hrest, ⟨⟩⟩ := h
  exact ⟨out, rest, m, rfl, hv, hrest⟩

theorem items_cons_eq_ok {inner : Visit Json} {outs : List Json}
    (h : dereferenceItems inner p path i (v :: vs) n = .ok (outs, n')) :
    ∃ out rest at' m, outs = out :: rest ∧ inner at' p.item v n = .ok (out, m) ∧
      dereferenceItems inner p path (i + 1) vs m = .ok (rest, n') := by
  simp only [dereferenceItems, bind_eq_ok, itemContext_eq] at h
  obtain ⟨⟨out, m⟩, hv, ⟨rest, m'⟩, hrest, ⟨⟩⟩ := h
  exact ⟨out, rest, _, m, rfl, hv, hrest⟩

/-- The calls for the children of a position leave data as it is. -/
def KeepsData (inner : Visit Json) : Prop :=
  ∀ {path v n out n'}, inner path .other v n = .ok (out, n') → out = v

theorem KeepsData.fields {inner : Visit Json} (hinner : KeepsData inner)
    (hchild : ∀ k, p.child k = .other)
    (h : dereferenceFields inner p path fs n = .ok (outs, n')) : outs = fs := by
  induction fs generalizing n outs with
  | nil => cases h; rfl
  | cons f fs ih =>
    obtain ⟨_, _, m, rfl, hv, hrest⟩ := fields_cons_eq_ok h
    rw [hchild] at hv
    rw [hinner hv, ih hrest]

theorem KeepsData.items {inner : Visit Json} {outs : List Json}
    (hinner : KeepsData inner) (hitem : p.item = .other)
    (h : dereferenceItems inner p path i vs n = .ok (outs, n')) : outs = vs := by
  induction vs generalizing n outs i with
  | nil => cases h; rfl
  | cons v vs ih =>
    obtain ⟨_, _, _, m, rfl, hv, hrest⟩ := items_cons_eq_ok h
    rw [hitem] at hv
    rw [hinner hv, ih hrest]

theorem keptFields_of_ne (hp : p ≠ .schema) : keptFields p fs = fs := by
  simp [keptFields, hp]

theorem keptFields_schema (href : fs.lookup "$ref" = none) :
    keptFields .schema fs = assertions fs := by
  refine filter_congr fun f hf => ?_
  have hne := lookup_eq_none_iff.mp href f hf
  have hne' : f.1 ≠ "$ref" := fun hkey => by simp [hkey] at hne
  simp [hne']

/-- Where no child is in a schema position, the value stays as it is. -/
theorem unchanged (hp : p ≠ .schema) (hobj : ∀ fs, v = .obj fs → ∀ k, p.child k = .other)
    (harr : ∀ vs, v = .arr vs → p.item = .other)
    (h : dereferenceSchemaRefsInner root left stack path p v n = .ok (out, n')) : out = v := by
  induction left generalizing path p v n out n' with
  | zero => exact absurd h inner_zero_ne_ok
  | succ left ih =>
    have hdata : KeepsData (dereferenceSchemaRefsInner root left stack) := fun h =>
      ih (by decide) (fun _ _ _ => rfl) (fun _ _ => rfl) h
    cases v with
    | obj fs =>
      obtain ⟨outs, rfl, hfields⟩ := inner_obj_eq_ok h (fun hschema => absurd hschema hp)
      rw [keptFields_of_ne hp] at hfields
      rw [hdata.fields (hobj fs rfl) hfields]
    | arr vs =>
      obtain ⟨outs, rfl, hitems⟩ := inner_arr_eq_ok h
      rw [hdata.items (harr vs rfl) hitems]
    | _ => exact inner_scalar_eq_ok h (by simp) (by simp)

/-! ### The expansion computes what it should -/

/-- The calls for the children of a position expand them. -/
def Expanding (root : Json) (inner : Visit Json) : Prop :=
  ∀ path p v n out n', inner path p v n = .ok (out, n') → Expands root (.value p v) out

theorem Expanding.fields {inner : Visit Json} (hinner : Expanding root inner)
    (h : dereferenceFields inner p path fs n = .ok (outs, n')) :
    Expands root (.fields p fs) (.obj outs) := by
  induction fs generalizing n outs with
  | nil =>
    cases h
    exact .fieldsNil p
  | cons f fs ih =>
    obtain ⟨_, _, m, rfl, hv, hrest⟩ := fields_cons_eq_ok h
    exact .fieldsCons (hinner _ _ _ _ _ _ hv) (ih hrest)

theorem Expanding.items {inner : Visit Json} {outs : List Json} (hinner : Expanding root inner)
    (hitem : p.item = .schema) (h : dereferenceItems inner p path i vs n = .ok (outs, n')) :
    Expands root (.items vs) (.arr outs) := by
  induction vs generalizing n outs i with
  | nil =>
    cases h
    exact .itemsNil
  | cons v vs ih =>
    obtain ⟨_, _, _, m, rfl, hv, hrest⟩ := items_cons_eq_ok h
    rw [hitem] at hv
    exact .itemsCons (hinner _ _ _ _ _ _ hv) (ih hrest)

theorem Expands.fields_isEmpty (h : Expands root (.fields p fs) (.obj outs)) :
    outs.isEmpty = fs.isEmpty := by
  cases h <;> rfl

/-- **What a call returns is the expansion of its value.** -/
theorem expands_inner (h : dereferenceSchemaRefsInner root left stack path p v n = .ok (out, n')) :
    Expands root (.value p v) out := by
  induction left generalizing stack path p v n out n' with
  | zero => exact absurd h inner_zero_ne_ok
  | succ left ih =>
    have hinner : ∀ stack, Expanding root (dereferenceSchemaRefsInner root left stack) :=
      fun _ _ _ _ _ _ _ h => ih h
    cases p with
    | other =>
      rw [unchanged (by decide) (fun _ _ _ => rfl) (fun _ _ => rfl) h]
      exact .payload v
    | schemaArray =>
      cases v with
      | arr =>
        obtain ⟨outs, rfl, hitems⟩ := inner_arr_eq_ok h
        exact .list ((hinner stack).items rfl hitems)
      | _ =>
        rw [unchanged (by decide) (fun _ _ _ => rfl) (by simp) h]
        exact .notList (by simp)
    | schemaMap =>
      cases v with
      | obj =>
        obtain ⟨outs, rfl, hfields⟩ := inner_obj_eq_ok h (by simp)
        rw [keptFields_of_ne (by decide)] at hfields
        exact .map ((hinner stack).fields hfields)
      | _ =>
        rw [unchanged (by decide) (by simp) (fun _ _ => rfl) h]
        exact .notMap (by simp)
    | schema =>
      cases v with
      | arr =>
        obtain ⟨outs, rfl, hitems⟩ := inner_arr_eq_ok h
        exact .tuple ((hinner stack).items rfl hitems)
      | obj fs =>
        cases href : fs.lookup "$ref" with
        | none =>
          obtain ⟨outs, rfl, hfields⟩ := inner_obj_eq_ok h (fun _ => href)
          rw [keptFields_schema href] at hfields
          exact .object href ((hinner stack).fields hfields)
        | some ref =>
          obtain ⟨r, _, _, _, _, m, outs, rfl, hr, htarget,
            hresolved, houts, rfl⟩ := inner_ref_eq_ok href h
          have hbeside := (hinner stack).fields houts
          by_cases hempty : outs.isEmpty = true
          · rw [if_pos hempty]
            rw [hbeside.fields_isEmpty] at hempty
            exact .refAlone href hr htarget (isEmpty_iff.mp hempty) (ih hresolved)
          · rw [if_neg hempty]
            exact .refBeside href hr htarget (ih hresolved) hbeside
      | _ =>
        rw [inner_scalar_eq_ok h (by simp) (by simp)]
        exact .scalar (by simp) (by simp)

end

variable {root : Json} {fs outs : List (String × Json)} {k : String} {out : Json}

/-! ### No reference is left -/

theorem Expands.fields_keys {p : Position} (h : Expands root (.fields p fs) (.obj outs)) :
    outs.map Prod.fst = fs.map Prod.fst := by
  induction fs generalizing outs with
  | nil =>
    cases h
    rfl
  | cons f fs ih =>
    cases h with
    | fieldsCons _ h => simp [ih h]

theorem lookup_eq_none_of_keys (h : k ∉ fs.map Prod.fst) : fs.lookup k = none := by
  refine lookup_eq_none_iff.mpr fun f hf => ?_
  simp only [bne_iff_ne, ne_eq]
  rintro rfl
  exact h (mem_map_of_mem hf)

theorem not_mem_assertions (hk : k ∈ ["$ref", "$defs", "definitions"]) :
    k ∉ (assertions fs).map Prod.fst := by
  intro hmem
  obtain ⟨f, hf, rfl⟩ := mem_map.mp hmem
  simp [assertions] at hf
  simp at hk
  tauto

/-- An expanded object has none of the keywords that are followed or dropped. -/
theorem Expands.lookup_eq_none (h : Expands root (.fields .schema (assertions fs)) (.obj outs))
    (hk : k ∈ ["$ref", "$defs", "definitions"]) : outs.lookup k = none := by
  refine lookup_eq_none_of_keys ?_
  rw [h.fields_keys]
  exact not_mem_assertions hk

/-- The objects in schema positions of an expanded part. -/
def SchemaIn : Part → Json → List (String × Json) → Prop
  | .value p _, out, gs => SchemaObject p out gs
  | .items _, out, gs => ∃ v ∈ itemsOf out, SchemaObject .schema v gs
  | .fields p _, out, gs => ∃ f ∈ fieldsOf out, SchemaObject (p.child f.1) f.2 gs

/-- **No reference is left** in a schema position. -/
theorem Expands.no_ref {part : Part} {gs : List (String × Json)}
    (h : Expands root part out) (hgs : SchemaIn part out gs) : gs.lookup "$ref" = none := by
  induction h with
  | payload => exact absurd hgs not_schemaObject_other
  | scalar harr hobj =>
    cases hgs with
    | here | field => exact absurd rfl (hobj _)
    | item => exact absurd rfl (harr _)
  | tuple _ ih | list _ ih =>
    cases hgs with
    | item hmem hv => exact ih ⟨_, hmem, hv⟩
  | notList harr =>
    cases hgs with
    | field _ hv => exact absurd hv not_schemaObject_other
    | item => exact absurd rfl (harr _)
  | map _ ih =>
    cases hgs with
    | field hmem hv => exact ih ⟨_, hmem, hv⟩
  | notMap hobj =>
    cases hgs with
    | field => exact absurd rfl (hobj _)
    | item _ hv => exact absurd hv not_schemaObject_other
  | object _ h ih =>
    cases hgs with
    | here => exact h.lookup_eq_none (by simp)
    | field hmem hv => exact ih ⟨_, hmem, hv⟩
  | refAlone _ _ _ _ _ ih => exact ih hgs
  | refBeside _ _ _ _ hbeside ih ihbeside =>
    cases hgs with
    | here => rfl
    | field hmem hv =>
      cases mem_singleton.mp hmem
      cases hv with
      | item hmem hv =>
        rcases mem_pair.mp hmem with rfl | rfl
        · exact ih hv
        · cases hv with
          | here => exact hbeside.lookup_eq_none (by simp)
          | field hmem hv => exact ihbeside ⟨_, hmem, hv⟩
  | itemsNil | fieldsNil => simp [SchemaIn, itemsOf, fieldsOf] at hgs
  | itemsCons _ _ ihv ih =>
    obtain ⟨v, hmem, hv⟩ := hgs
    rcases mem_cons.mp hmem with rfl | hmem
    · exact ihv hv
    · exact ih ⟨v, hmem, hv⟩
  | fieldsCons _ _ ihv ih =>
    obtain ⟨f, hmem, hv⟩ := hgs
    rcases mem_cons.mp hmem with rfl | hmem
    · exact ihv hv
    · exact ih ⟨f, hmem, hv⟩

/-! ### Plain references -/

/-- The values that the expansion reads, and what they stand for: from the root along keywords,
and on from a reference to its target. -/
inductive Reached (root : Json) : Position → Json → Prop
  | root : Reached root .schema root
  | item {p : Position} {vs : List Json} {v : Json} (h : Reached root p (.arr vs))
      (hp : p.item = .schema) (hv : v ∈ vs) : Reached root .schema v
  | entry {fs : List (String × Json)} {f : String × Json} (h : Reached root .schemaMap (.obj fs))
      (hf : f ∈ fs) : Reached root (Position.schemaMap.child f.1) f.2
  | keyword {fs : List (String × Json)} {f : String × Json} (h : Reached root .schema (.obj fs))
      (hf : f ∈ assertions fs) : Reached root (Position.schema.child f.1) f.2
  | target {fs : List (String × Json)} {r : String} {fragment : List Char} {target : Json}
      (h : Reached root .schema (.obj fs)) (href : fs.lookup "$ref" = some (.str r))
      (hr : r.toList = '#' :: fragment)
      (htarget : root.pointer (String.ofList fragment) = some target) :
      Reached root .schema target

/-- No reference that is followed has an escape, and no `$id` stands below the root in an object
that is read or on the way to a target. -/
structure Plain (root : Json) : Prop where
  ids : ∀ fs, Reached root .schema (.obj fs) → .obj fs = root ∨ Json.getStr (.obj fs) "$id" = none
  refs : ∀ fs r, Reached root .schema (.obj fs) → fs.lookup "$ref" = some (.str r) →
    '%' ∉ r.toList ∧ ∀ ts, tokens r.toList.tail = some ts → idFree root ts = true

section
variable (hroot : Plain root) (h : Reached root .schema (.obj fs))
include hroot h

theorem Plain.scope_eq : scope root (.obj fs) = root := by
  rcases hroot.ids fs h with rfl | hid
  · simp [scope]
  · exact scope_eq_self hid

/-- A plain reference leads where its pointer leads. -/
theorem Plain.resolve_eq {r : String} {fragment : List Char} {target : Json}
    (href : fs.lookup "$ref" = some (.str r)) (hr : r.toList = '#' :: fragment)
    (htarget : root.pointer (String.ofList fragment) = some target) :
    resolve (scope root (.obj fs)) r = some (root, target) := by
  obtain ⟨hplain, hfree⟩ := hroot.refs fs r h href
  rw [hr] at hplain hfree
  obtain ⟨ts, hts, hdescend⟩ := bind_eq_some_iff.mp htarget
  rw [String.toList_ofList] at hts
  have hlocate : locate root root ts = some (root, target) :=
    locate_of_descend hdescend (hfree ts hts)
  have hfragment : '%' ∉ fragment := fun hmem => hplain (mem_cons_of_mem _ hmem)
  rw [hroot.scope_eq h, resolve, hr]
  simp [percentDecode, percentDecodeFrom_plain hfragment le_rfl, bind_eq_bind, bind_some, hts,
    hlocate]

end

/-! ### The expansion means the same -/

/-- The part of the expanded document that stands where the part stood. -/
def replaced : Part → Json → Part
  | .value p _, out => .value p out
  | .items _, out => .items (itemsOf out)
  | .fields p _, out => .fields p (fieldsOf out)

/-- The values of the part are read. -/
def PartReached (root : Json) : Part → Prop
  | .value p v => Reached root p v
  | .items vs => ∀ v ∈ vs, Reached root .schema v
  | .fields p fs => ∀ f ∈ fs, Reached root (p.child f.1) f.2

theorem assertions_eq_self (h : ∀ k ∈ ["$ref", "$defs", "definitions"], k ∉ fs.map Prod.fst) :
    assertions fs = fs := by
  refine filter_eq_self.mpr fun f hf => ?_
  simp only [decide_eq_true_eq]
  exact fun hk => h _ hk (mem_map_of_mem hf)

/-- The keywords of an expanded schema object are all its fields. -/
theorem Expands.assertions_eq (h : Expands root (.fields .schema (assertions fs)) (.obj outs)) :
    assertions outs = outs := by
  refine assertions_eq_self fun k hk => ?_
  rw [h.fields_keys]
  exact not_mem_assertions hk

/-- The expansion of a schema object without a reference means what its fields mean. -/
theorem Expands.means_object {V : Vocabulary} {b : Json} {ms : List (String × Meaning)}
    (h : Expands root (.fields .schema (assertions fs)) (.obj outs))
    (hm : ∀ b, Means V b (.fields .schema outs) (.named ms)) :
    Means V b (.value .schema (.obj outs)) (.schema (V.object ms)) := by
  refine .object (h.lookup_eq_none (by simp)) ?_
  rw [h.assertions_eq]
  exact hm _

/-- **A part and its expansion mean the same**, wherever the references of the expansion
start. -/
theorem Expands.means {part : Part} (V : Vocabulary) (hroot : Plain root)
    (h : Expands root part out) (hin : PartReached root part) :
    ∃ m, Means V root part m ∧ ∀ b, Means V b (replaced part out) m := by
  induction h with
  | payload v => exact ⟨_, .payload _ v, fun b => .payload b v⟩
  | @scalar v harr hobj =>
    by_cases hbool : ∃ x, v = .bool x
    · obtain ⟨x, rfl⟩ := hbool
      exact ⟨_, .bool _ x, fun b => .bool b x⟩
    · have hbool' : ∀ x, v ≠ .bool x := fun x hx => hbool ⟨x, hx⟩
      exact ⟨_, .scalar _ hbool' harr hobj, fun b => .scalar b hbool' harr hobj⟩
  | tuple _ ih =>
    obtain ⟨m, hm, hout⟩ := ih fun v hv => Reached.item hin rfl hv
    obtain ⟨all, rfl⟩ := hm.eq_list
    exact ⟨_, .tuple hm, fun b => .tuple (hout b)⟩
  | list _ ih =>
    obtain ⟨m, hm, hout⟩ := ih fun v hv => Reached.item hin rfl hv
    obtain ⟨all, rfl⟩ := hm.eq_list
    exact ⟨_, .list hm, fun b => .list (hout b)⟩
  | notList harr => exact ⟨_, .notList _ harr, fun b => .notList b harr⟩
  | map _ ih =>
    obtain ⟨m, hm, hout⟩ := ih fun f hf => Reached.entry hin hf
    obtain ⟨ms, rfl⟩ := hm.eq_named
    exact ⟨_, .map hm, fun b => .map (hout b)⟩
  | notMap hobj => exact ⟨_, .notMap _ hobj, fun b => .notMap b hobj⟩
  | object href h ih =>
    obtain ⟨m, hm, hout⟩ := ih fun f hf => Reached.keyword hin hf
    obtain ⟨ms, rfl⟩ := hm.eq_named
    refine ⟨_, .object href ?_, fun b => h.means_object hout⟩
    rwa [hroot.scope_eq hin]
  | refAlone href hr htarget halone _ ih =>
    obtain ⟨m, hm, hout⟩ := ih (Reached.target hin href hr htarget)
    obtain ⟨holds, rfl⟩ := hm.eq_schema
    have hmeans : Means V root (.value .schema (.obj _))
        (.schema fun i => holds i ∧ V.object [] i) :=
      .ref href (hroot.resolve_eq hin href hr htarget) hm (by rw [halone]; exact .fieldsNil _ _)
    have heq : (fun i => holds i ∧ V.object [] i) = holds :=
      funext fun i => propext (and_iff_left (V.object_nil i))
    rw [heq] at hmeans
    exact ⟨_, hmeans, hout⟩
  | refBeside href hr htarget _ hbeside ih ihbeside =>
    obtain ⟨m, hm, hout⟩ := ih (Reached.target hin href hr htarget)
    obtain ⟨holds, rfl⟩ := hm.eq_schema
    obtain ⟨m, hms, houts⟩ := ihbeside fun f hf => Reached.keyword hin hf
    obtain ⟨ms, rfl⟩ := hms.eq_named
    refine ⟨.schema fun i => holds i ∧ V.object ms i,
      .ref href (hroot.resolve_eq hin href hr htarget) hm ?_, fun b => ?_⟩
    · rwa [hroot.scope_eq hin]
    · have heq : (fun i => holds i ∧ V.object ms i) =
          V.object [("allOf", .list [holds, V.object ms])] :=
        funext fun i => propext (V.object_allOf holds (V.object ms) i).symm
      rw [heq]
      refine .object rfl (.fieldsCons (.list ?_) (.fieldsNil _ _))
      exact .itemsCons (hout _) (.itemsCons (hbeside.means_object houts) (.itemsNil _))
  | itemsNil => exact ⟨_, .itemsNil _, fun b => .itemsNil b⟩
  | itemsCons _ _ ihv ih =>
    obtain ⟨m, hm, hout⟩ := ihv (hin _ (by simp))
    obtain ⟨holds, rfl⟩ := hm.eq_schema
    obtain ⟨m, hms, houts⟩ := ih fun v hv => hin v (mem_cons_of_mem _ hv)
    obtain ⟨all, rfl⟩ := hms.eq_list
    exact ⟨_, .itemsCons hm hms, fun b => .itemsCons (hout b) (houts b)⟩
  | fieldsNil p => exact ⟨_, .fieldsNil _ p, fun b => .fieldsNil b p⟩
  | fieldsCons _ _ ihv ih =>
    obtain ⟨m, hm, hout⟩ := ihv (hin _ mem_cons_self)
    obtain ⟨m', hms, houts⟩ := ih fun f hf => hin f (mem_cons_of_mem _ hf)
    obtain ⟨ms, rfl⟩ := hms.eq_named
    exact ⟨_, .fieldsCons hm hms, fun b => .fieldsCons (hout b) (houts b)⟩

/-! ### The walk -/

section
variable {left depth i n n' : ℕ} {path : String} {p : Position} {v : Json} {vs : List Json}
  {gs : List (String × Json)}

/-- The walk of a child position finds no unsupported keyword. -/
def Rejecting (inner : Walk) : Prop :=
  ∀ path depth p v n n', inner path depth p v n = .ok n' →
    ∀ gs, SchemaObject p v gs → ∀ keyword ∈ unsupportedKeywords, gs.lookup keyword = none

theorem Rejecting.fields {inner : Walk} (hinner : Rejecting inner)
    (h : walkFields inner path depth p fs n = .ok n') {k : String} (hmem : (k, v) ∈ fs)
    (hgs : SchemaObject (p.child k) v gs) :
    ∀ keyword ∈ unsupportedKeywords, gs.lookup keyword = none := by
  induction fs generalizing n with
  | nil => cases hmem
  | cons f fs ih =>
    simp only [walkFields, bind_eq_ok, schemaChildContext_eq] at h
    obtain ⟨m, hv, hrest⟩ := h
    rcases mem_cons.mp hmem with rfl | hmem
    · exact hinner _ _ _ _ _ _ hv gs hgs
    · exact ih hrest hmem

theorem Rejecting.items {inner : Walk} (hinner : Rejecting inner)
    (h : walkItems inner path depth p i vs n = .ok n') (hmem : v ∈ vs)
    (hgs : SchemaObject p.item v gs) :
    ∀ keyword ∈ unsupportedKeywords, gs.lookup keyword = none := by
  induction vs generalizing n i with
  | nil => cases hmem
  | cons w vs ih =>
    simp only [walkItems, bind_eq_ok, itemContext_eq] at h
    obtain ⟨m, hv, hrest⟩ := h
    rcases mem_cons.mp hmem with rfl | hmem
    · exact hinner _ _ _ _ _ _ hv gs hgs
    · exact ih hrest hmem

theorem unsupportedIn_eq_none (h : unsupportedIn .schema fs = none) :
    ∀ keyword ∈ unsupportedKeywords, fs.lookup keyword = none := by
  intro keyword hk
  have hnone := find?_eq_none.mp h keyword hk
  rwa [Bool.not_eq_true, isSome_eq_false_iff, isNone_iff_eq_none] at hnone

/-- **What the walk passes has no unsupported keyword** in a schema position. -/
theorem rejecting_walk (left : ℕ) : Rejecting (walkSchemaInner left) := by
  induction left with
  | zero =>
    intro path depth p v n n' h
    unfold walkSchemaInner at h
    split at h <;> cases h
  | succ left ih =>
    intro path depth p v n n' h gs hgs
    cases v with
    | obj =>
      simp only [walkSchemaInner] at h
      split at h
      · cases h
      split at h
      · cases h
      split at h
      · cases h
      case h_2 hnone =>
        cases hgs with
        | here => exact unsupportedIn_eq_none hnone
        | field hmem hv => exact ih.fields h hmem hv
    | arr =>
      simp only [walkSchemaInner] at h
      split at h
      · cases h
      split at h
      · cases h
      · cases hgs with
        | item hmem hv => exact ih.items h hmem hv
    | _ => cases hgs

end

variable {floatLen : BitVec 64 → ℕ} {label : Option String} {strict : Option Bool}

/-! ### The parser -/

theorem map_eq_ok {ε α β : Type} {x : Except ε α} {f : α → β} {b : β} (h : x.map f = .ok b) :
    ∃ a, x = .ok a ∧ f a = b := by
  cases x <;> cases h
  exact ⟨_, rfl, rfl⟩

/-- No object in a schema position of an accepted value has a keyword that is not supported. -/
def Supported (out : Json) : Prop :=
  ∀ gs, SchemaObject .schema out gs → ∀ keyword ∈ unsupportedKeywords, gs.lookup keyword = none

/-- What the branch for schemas accepts. -/
theorem parseJsonSchema_eq_ok {schema : Json} {spec : GrammarSpec}
    (h : parseJsonSchema floatLen schema label strict = .ok spec) :
    ∃ out, spec = .jsonSchema out label strict ∧ Expands schema (.value .schema schema) out ∧
      Supported out := by
  simp only [parseJsonSchema, bind_eq_ok] at h
  obtain ⟨out, hout, h⟩ := h
  split at h
  · cases h
  obtain ⟨_, hwalk, ⟨⟩⟩ := bind_eq_ok.mp h
  obtain ⟨⟨_, n⟩, hinner, rfl⟩ := map_eq_ok hout
  obtain ⟨n, hwalk, -⟩ := map_eq_ok hwalk
  exact ⟨_, rfl, expands_inner hinner, rejecting_walk _ _ _ _ _ _ _ hwalk⟩

/-- A schema comes from the field for schemas. -/
theorem parseGrammar_eq_jsonSchema {v : Json}
    (h : parseGrammar floatLen v = .ok (.jsonSchema out label strict)) :
    ∃ schema, v.get "json_schema" = some schema ∧
      parseJsonSchema floatLen schema label strict = .ok (.jsonSchema out label strict) := by
  unfold parseGrammar at h
  split at h
  · cases h
  split at h
  · cases h
  dsimp only at h
  split at h
  case h_1 schema hschema _ _ =>
    obtain ⟨out', hspec, -⟩ := parseJsonSchema_eq_ok h
    cases hspec
    exact ⟨schema, hschema, h⟩
  case h_2 =>
    unfold parseRegex at h
    split at h
    · split at h <;> cases h
    · cases h
  case h_3 =>
    unfold parseEbnf at h
    split at h
    · split at h
      · cases h
      · split at h <;> cases h
    · cases h
  case h_4 => cases h
  case h_5 => cases h

/-- **Reference expansion keeps the meaning of a schema.**  For every schema that the parser
accepts: the value handed to the worker is the expansion of the schema (data, property names and
the keywords of each object are left as they are), and no object in a schema position of it has a
reference or an unsupported keyword.  With plain references the schema has a meaning, and the same
instances are valid under it and under the value, whatever the keywords without subschemas say. -/
theorem expansion_keeps_meaning (V : Vocabulary) {floatLen : BitVec 64 → ℕ} {v schema out : Json}
    {label : Option String} {strict : Option Bool} (hschema : v.get "json_schema" = some schema)
    (h : parseGrammar floatLen v = .ok (.jsonSchema out label strict)) :
    Expands schema (.value .schema schema) out ∧
      (∀ gs, SchemaObject .schema out gs →
        gs.lookup "$ref" = none ∧ ∀ keyword ∈ unsupportedKeywords, gs.lookup keyword = none) ∧
      (Plain schema → (∃ holds, Means V schema (.value .schema schema) (.schema holds)) ∧
        ∀ i, Valid V schema i ↔ Valid V out i) := by
  obtain ⟨_, hschema', hparse⟩ := parseGrammar_eq_jsonSchema h
  cases hschema.symm.trans hschema'
  obtain ⟨_, hspec, hexpands, hsupported⟩ := parseJsonSchema_eq_ok hparse
  cases hspec
  refine ⟨hexpands, fun gs hgs => ⟨hexpands.no_ref hgs, hsupported gs hgs⟩, fun hplain => ?_⟩
  obtain ⟨m, hm, hout⟩ := hexpands.means V hplain .root
  obtain ⟨holds, rfl⟩ := hm.eq_schema
  refine ⟨⟨holds, hm⟩, fun i => ?_⟩
  rw [hm.valid_iff, (hout out).valid_iff]

/-! ### References that are not plain -/

namespace OtherReadings

/-- A vocabulary in which the keywords without subschemas assert nothing. -/
def silent : Vocabulary where
  matchesName _ _ := True
  reads _ _ _ _ := True
  stands _ _ := True
  tuple _ _ := True

/-- The request with a schema. -/
def request (schema : Json) : Json := .obj [("json_schema", schema)]

/-- A reference whose fragment `/$defs/a%25b` reads `/$defs/a%b`. -/
def escaped : Json :=
  .obj [("$defs", .obj [("a%25b", .bool true), ("a%b", .bool false)]),
    ("$ref", .str "#/$defs/a%25b")]

/-- A definition with an `$id` and a definition `B` of its own. -/
def embeddedA : Json :=
  .obj [("$id", .str "urn:a"), ("$defs", .obj [("B", .bool false)]), ("$ref", .str "#/$defs/B")]

/-- The `B` that `A` refers to is its own. -/
def embedded : Json :=
  .obj [("$defs", .obj [("A", embeddedA), ("B", .bool true)]), ("$ref", .str "#/$defs/A")]

/-- What the worker is handed for `embedded`. -/
def embeddedOut : Json := .obj [("allOf", .arr [.bool true, .obj [("$id", .str "urn:a")]])]

theorem escaped_means : Means silent escaped (.value .schema escaped)
    (.schema fun i => false = true ∧ silent.object [] i) :=
  .ref rfl (by decide +kernel : resolve escaped "#/$defs/a%25b" = some (escaped, .bool false))
    (.bool _ false) (.fieldsNil _ _)

theorem embedded_means : Means silent embedded (.value .schema embedded)
    (.schema fun i => (false = true ∧ silent.object [("$id", .payload (.str "urn:a"))] i) ∧
      silent.object [] i) := by
  refine .ref rfl
    (by decide +kernel : resolve embedded "#/$defs/A" = some (embeddedA, embeddedA)) ?_
    (.fieldsNil _ _)
  exact .ref rfl (by decide +kernel : resolve embeddedA "#/$defs/B" = some (embeddedA, .bool false))
    (.bool _ false) (.fieldsCons (.payload _ _) (.fieldsNil _ _))

theorem embeddedOut_means : Means silent embeddedOut (.value .schema embeddedOut)
    (.schema (silent.object [("allOf", .list [fun _ => true = true,
      silent.object [("$id", .payload (.str "urn:a"))]])])) := by
  refine .object rfl (.fieldsCons (.list (.itemsCons (.bool _ true) ?_)) (.fieldsNil _ _))
  exact .itemsCons (.object rfl (.fieldsCons (.payload _ _) (.fieldsNil _ _))) (.itemsNil _)

/-- **The two readings differ** where a reference is escaped or stands below an `$id`: nothing is
valid under either schema, and `null` is valid under what the parser hands on. -/
theorem expansion_changes_meaning :
    (parseGrammar (fun _ => 0) (request escaped) = .ok (.jsonSchema (.bool true) none none) ∧
      ¬ Valid silent escaped .null ∧ Valid silent (.bool true) .null) ∧
    (parseGrammar (fun _ => 0) (request embedded) = .ok (.jsonSchema embeddedOut none none) ∧
      ¬ Valid silent embedded .null ∧ Valid silent embeddedOut .null) := by
  refine ⟨⟨by decide +kernel, ?_, ?_⟩, by decide +kernel, ?_, ?_⟩
  · rw [escaped_means.valid_iff]
    simp
  · exact ⟨_, .bool _ true, rfl⟩
  · rw [embedded_means.valid_iff]
    simp
  · rw [embeddedOut_means.valid_iff, Vocabulary.object_allOf]
    refine ⟨rfl, ?_⟩
    intro k hk
    rw [mem_singleton.mp hk]
    trivial

/-- A schema with a reference, a keyword beside it, and names and data that look like
keywords. -/
def plainSchema : Json :=
  .obj [("$defs", .obj [("if", .obj [("type", .str "string")])]),
    ("properties", .obj [("$ref", .obj [("$ref", .str "#/$defs/if"), ("minLength", .nat 1)]),
      ("$defs", .obj [("const", .obj [("$id", .str "a"), ("$ref", .str "#/a%25b")])])])]

/-- What the worker is handed for it. -/
def plainOut : Json :=
  .obj [("properties", .obj [
    ("$ref", .obj [("allOf", .arr [.obj [("type", .str "string")], .obj [("minLength", .nat 1)]])]),
    ("$defs", .obj [("const", .obj [("$id", .str "a"), ("$ref", .str "#/a%25b")])])])]

/-- What the expansion of it reads. -/
def plainParts : List (Position × Json) :=
  [(.schema, plainSchema),
    (.schemaMap, .obj [("$ref", .obj [("$ref", .str "#/$defs/if"), ("minLength", .nat 1)]),
      ("$defs", .obj [("const", .obj [("$id", .str "a"), ("$ref", .str "#/a%25b")])])]),
    (.schema, .obj [("$ref", .str "#/$defs/if"), ("minLength", .nat 1)]), (.other, .nat 1),
    (.schema, .obj [("const", .obj [("$id", .str "a"), ("$ref", .str "#/a%25b")])]),
    (.other, .obj [("$id", .str "a"), ("$ref", .str "#/a%25b")]),
    (.schema, .obj [("type", .str "string")]), (.other, .str "string")]

theorem plainParts_ref : ∀ x ∈ plainParts, x.1 = .schema →
    (fieldsOf x.2).lookup "$ref" = none ∨
      (fieldsOf x.2).lookup "$ref" = some (.str "#/$defs/if") := by
  decide +kernel

theorem reached_plainSchema {p : Position} {v : Json} (h : Reached plainSchema p v) :
    (p, v) ∈ plainParts := by
  have hclosed : ∀ x ∈ plainParts, itemsOf x.2 = [] ∧
      (∀ f ∈ fieldsOf x.2, x.1 = .schemaMap →
        (Position.schemaMap.child f.1, f.2) ∈ plainParts) ∧
      ∀ f ∈ assertions (fieldsOf x.2), x.1 = .schema →
        (Position.schema.child f.1, f.2) ∈ plainParts := by decide +kernel
  induction h with
  | root => decide +kernel
  | item _ _ hv ih =>
    cases (hclosed _ ih).1
    cases hv
  | entry _ hf ih => exact (hclosed _ ih).2.1 _ hf rfl
  | keyword _ hf ih => exact (hclosed _ ih).2.2 _ hf rfl
  | target _ href hr htarget ih =>
    rcases plainParts_ref _ ih rfl with hnone | hsome
    · cases href.symm.trans hnone
    cases href.symm.trans hsome
    obtain rfl := (cons.inj hr).2
    have hpointer : plainSchema.pointer "/$defs/if" = some (.obj [("type", .str "string")]) := by
      decide +kernel
    cases hpointer.symm.trans htarget
    decide +kernel

theorem plain_plainSchema : Plain plainSchema where
  ids := by
    intro fs h
    have hid : ∀ x ∈ plainParts, x.1 = .schema → x.2.getStr "$id" = none := by decide +kernel
    exact .inr (hid _ (reached_plainSchema h) rfl)
  refs := by
    intro fs r h href
    rcases plainParts_ref _ (reached_plainSchema h) rfl with hnone | hsome
    · cases href.symm.trans hnone
    cases href.symm.trans hsome
    refine ⟨by decide, fun ts hts => ?_⟩
    cases hts
    decide +kernel

/-- At a schema with plain references. -/
theorem expansion_keeps_meaning_plainSchema :
    Plain plainSchema ∧ (Valid silent plainSchema .null ↔ Valid silent plainOut .null) :=
  ⟨plain_plainSchema, ((expansion_keeps_meaning silent (v := request plainSchema) rfl
    (by decide +kernel : parseGrammar (fun _ => 0) _ = .ok (.jsonSchema plainOut none none))).2.2
    plain_plainSchema).2 .null⟩

end OtherReadings

end Sie.Gateway.Grammar

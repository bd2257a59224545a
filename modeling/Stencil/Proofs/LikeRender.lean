import Stencil.Proofs.LikeScript

/-!
# Trees that are alike are rendered alike

Evaluating expressions that differ in places only, and rendering such nodes, are scripts that differ in
places only: one case for each way in which two trees can be alike.
-/

namespace Stencil

open Script (Like)

variable {strict : Bool} {scope : Scope}

theorem like_evalSuffixes_of {p p' : Place} (hp : p.Like strict p') {source source' : List Suffix → String}
    (hsource : ∀ {ss ss' : List Suffix}, LikeSuffixes strict ss ss' → strict = true →
      source ss = source' ss')
    {before before' : List Suffix} (hb : LikeSuffixes strict before before') {suffix suffix' : Suffix}
    (hsuffix : LikeSuffix strict suffix suffix') {rest rest' : List Suffix} (v : Value)
    (hstep : ∀ v, Like strict
      (do
        let next ← evalSuffix scope p (fun _ => source (before ++ [suffix])) suffix v
        evalSuffixes scope p source (before ++ [suffix]) rest next)
      (do
        let next ← evalSuffix scope p' (fun _ => source' (before' ++ [suffix'])) suffix' v
        evalSuffixes scope p' source' (before' ++ [suffix']) rest' next)) :
    Like strict (evalSuffixes scope p source before (suffix :: rest) v)
      (evalSuffixes scope p' source' before' (suffix' :: rest') v) := by
  have hafter : LikeSuffixes strict (before ++ [suffix]) (before' ++ [suffix']) :=
    hb.append (.cons hsuffix .nil)
  rw [evalSuffixes.eq_def, evalSuffixes.eq_def]
  cases v with
  | null => exact .failAt hp fun hs => by rw [hsource hafter hs, hsource hb hs]
  | block b => exact .failAt hp fun hs => by rw [hsource hafter hs, hsource hb hs]
  | _ => exact hstep _

mutual

theorem LikeExpr.script {e e' : Expr} : LikeExpr strict e e' → (lenient : Bool) →
    Like strict (evalExpr scope e lenient) (evalExpr scope e' lenient)
  | .literal _, _ => by
    rw [evalExpr, evalExpr]
    exact .done
  | @LikeExpr.binary _ a a' op b b' ha hb, lenient => by
    have hint : Like strict
        (do
          let x ← integerOperand a.place (← evalExpr scope a false)
          let y ← integerOperand b.place (← evalExpr scope b false)
          arithmetic a.place a op b x y : Script scope Value)
        (do
          let x ← integerOperand a'.place (← evalExpr scope a' false)
          let y ← integerOperand b'.place (← evalExpr scope b' false)
          arithmetic a'.place a' op b' x y) :=
      .bind (ha.script false) fun _ => .bind (like_integerOperand ha.place _) fun _ =>
        .bind (hb.script false) fun _ => .bind (like_integerOperand hb.place _) fun _ =>
          like_arithmetic ha.place ha hb op _ _
    rw [evalExpr.eq_def, evalExpr.eq_def]
    cases op with
    | or =>
      refine .bind (ha.script lenient) fun v => ?_
      show Like strict (if v.isTrue = true then _ else _) (if v.isTrue = true then _ else _)
      split
      · exact .done
      · exact .map _ (hb.script lenient)
    | and =>
      refine .bind (ha.script lenient) fun v => ?_
      show Like strict (if v.isTrue = true then _ else _) (if v.isTrue = true then _ else _)
      split
      · exact .map _ (hb.script lenient)
      · exact .done
    | equal =>
      exact .bind (ha.script false) fun _ => .bind (hb.script false) fun _ =>
        .map _ (like_equal ha.place _ _)
    | notEqual =>
      exact .bind (ha.script false) fun _ => .bind (hb.script false) fun _ =>
        .map _ (like_equal ha.place _ _)
    | plus =>
      exact .bind (ha.script false) fun _ => .bind (hb.script false) fun _ =>
        like_plus ha.place ha hb _ _
    | _ => exact hint
  | .negation _ he, lenient => by
    rw [evalExpr, evalExpr]
    exact .map _ (he.script lenient)
  | .text _ hns, _ => by
    rw [evalExpr, evalExpr]
    exact .map _ (.capture hns.script)
  | .list _ hes, _ => by
    rw [evalExpr, evalExpr]
    exact .map _ hes.script
  | .range _ ha hb, _ => by
    rw [evalExpr, evalExpr]
    exact .bind (ha.script false) fun _ => .bind (like_bound ha.place _) fun _ =>
      .bind (hb.script false) fun _ => .map _ (like_bound hb.place _)
  | @LikeExpr.reference _ p p' x quiet ss ss' hp hss, lenient => by
    rw [evalExpr, evalExpr]
    refine .andAct .defined fun b b' hb => ?_
    obtain rfl := hb
    split
    · exact .bind .read fun v =>
        hss.script hp (fun hss hs => by rw [hss.eq_of_strict hs]) .nil v
    · rw [← hss.isEmpty_eq]
      split
      · exact .done
      · exact .failAt hp fun _ => rfl

theorem LikeExprs.script {es es' : List Expr} : LikeExprs strict es es' →
    Like strict (evalExprs scope es) (evalExprs scope es')
  | .nil => by
    rw [evalExprs]
    exact .done
  | .cons he hes => by
    rw [evalExprs, evalExprs]
    exact .bind (he.script false) fun _ => .map _ hes.script

theorem LikeSuffixes.script {p p' : Place} {source source' : List Suffix → String}
    {before before' ss ss' : List Suffix} : LikeSuffixes strict ss ss' → (hp : p.Like strict p') →
    (hsource : ∀ {ss ss' : List Suffix}, LikeSuffixes strict ss ss' → strict = true →
      source ss = source' ss') →
    (hb : LikeSuffixes strict before before') → (v : Value) →
      Like strict (evalSuffixes scope p source before ss v) (evalSuffixes scope p' source' before' ss' v)
  | .nil, _, _, _, v => by
    rw [evalSuffixes, evalSuffixes]
    exact .done
  | .cons hsuffix hrest, hp, hsource, hb, v =>
    have hafter := hb.append (.cons hsuffix .nil)
    like_evalSuffixes_of hp hsource hb hsuffix v fun v =>
      .bind (hsuffix.script hp (fun hs => hsource hafter hs) v) fun next =>
        hrest.script hp hsource hafter next

theorem LikeSuffix.script {p p' : Place} (hp : p.Like strict p') {source source' : String}
    (hsource : strict = true → source = source') {suffix suffix' : Suffix} :
    LikeSuffix strict suffix suffix' → (v : Value) →
      Like strict (evalSuffix scope p (fun _ => source) suffix v)
        (evalSuffix scope p' (fun _ => source') suffix' v)
  | .member, v => by
    rw [evalSuffix, evalSuffix]
    exact .rethrow (fun hs => by rw [hp hs, hsource hs]) (like_propertyOf _ _)
  | .method hes, v => by
    rw [evalSuffix, evalSuffix]
    exact .bind hes.script fun _ =>
      .rethrow (fun hs => by rw [hp hs, hsource hs]) (like_callMethodOf _ _ _)
  | .index he, v => by
    rw [evalSuffix, evalSuffix]
    exact .bind (he.script false) fun _ =>
      .rethrow (fun hs => by rw [hp hs, hsource hs]) (like_indexOf _ _)

theorem LikeNode.script {n n' : Node} : LikeNode strict n n' →
    Like strict (renderNode scope n) (renderNode scope n')
  | .text _ => by
    rw [renderNode, renderNode]
    exact .act .write
  | .comment _ => by
    rw [renderNode, renderNode]
    exact .done
  | .sequence _ hns => by
    rw [renderNode, renderNode]
    exact hns.script
  | @LikeNode.output _ e e' he => by
    rw [renderNode, renderNode]
    refine .bind (he.script false) fun v => ?_
    have hwrite : ∀ v, Like strict
        (do Act.write (← hostText e.place v) : Script scope Unit)
        (do Act.write (← hostText e'.place v)) := fun v =>
      .bind (like_hostText he.place v) fun _ => .act .write
    cases v with
    | null =>
      show Like strict (if e.isQuiet = true then _ else _) (if e'.isQuiet = true then _ else _)
      rw [← he.isQuiet_eq]
      split
      · exact .done
      · exact .failAt he.place fun hs => by rw [he.eq_of_strict hs]
    | _ => exact hwrite _
  | .assign he => by
    rw [renderNode, renderNode]
    exact .bind (he.script false) fun _ => .assign
  | .choose _ he hyes hno => by
    rw [renderNode, renderNode]
    refine .bind (he.script true) fun v => ?_
    split
    · exact hyes.script
    · exact hno.script
  | @LikeNode.foreach _ p p' x e e' ns ns' hp he hns => by
    rw [renderNode, renderNode]
    refine .bind (he.script false) fun v => ?_
    split
    · exact .done
    · split
      · exact .loop hns.script
      · exact .bind (like_hostText hp _) fun _ => .failAt hp fun _ => rfl
  | .leave hp => by
    rw [renderNode, renderNode]
    exact .leave hp
  | .leaveScope hp he => by
    rw [renderNode, renderNode]
    refine .bind (he.script false) fun v => ?_
    split
    · exact .leave hp
    · exact .failAt hp fun hs => by rw [he.eq_of_strict hs]
  | .define _ hns => by
    rw [renderNode, renderNode]
    refine .andAct (.define hns) fun b b' hb => ?_
    rw [hb]
    exact .assign
  | .call hp hes => by
    rw [renderNode, renderNode]
    exact like_callMacro hp _ hes .none
  | .callWith hp hes hns => by
    rw [renderNode, renderNode]
    exact like_callMacro hp _ hes (.some hns)
  | .parse hp he => by
    rw [renderNode, renderNode]
    exact .bind (he.script false) fun _ => like_parseDirective hp _
  | .evaluate hp he => by
    rw [renderNode, renderNode]
    exact .bind (he.script false) fun _ => like_evaluateDirective hp _

theorem LikeNodes.script {ns ns' : List Node} : LikeNodes strict ns ns' →
    Like strict (renderNodes scope ns) (renderNodes scope ns')
  | .nil => by
    rw [renderNodes]
    exact .done
  | .cons hn hns => by
    rw [renderNodes, renderNodes]
    exact .bind hn.script fun _ => hns.script

end

end Stencil

import TemplateMessages.Template.Session

/-!
# Sessions without a history

A session is shared by many templates, and what it keeps between two of them
could leak from one into the next: the scope of the default domain, with its
count of open nodes, and the recorder of messages.  This module follows a
session through any sequence of requests, failing ones included.  A walk over a
tree closes every node that it opens, so each template finds the scope as the
first one did, and the recorder is on for an extraction only.  What is left of
the history is the locale.
-/

namespace TemplateMessages.Template

open TemplateMessages.Gettext (Catalog)

namespace DomainScope

@[simp]
theorem depth_enter (scope : DomainScope) (node : Node) :
    (scope.enter node).depth = scope.depth + 1 := by
  cases node <;> rfl

@[simp]
theorem depth_leave (scope : DomainScope) : scope.leave.depth = scope.depth - 1 := rfl

/-- Whatever domain an earlier template has left, an outermost node starts anew. -/
theorem enter_of_depth_eq_zero {scope : DomainScope} (hdepth : scope.depth = 0) (node : Node) :
    scope.enter node = outermost.enter node := by
  cases node <;> simp [enter, hdepth, outermost]

end DomainScope

namespace Node

mutual

/-- A walk leaves every node that it enters. -/
@[simp]
theorem depth_fillDomains (scope : DomainScope) (node : Node) :
    (node.fillDomains scope).2.depth = scope.depth := by
  cases node with
  | text data line => simp [fillDomains]
  | print expr line => simp [fillDomains]
  | set name value line => simp [fillDomains]
  | body nodes line =>
      have hnodes := depth_fillAll (scope.enter (.body nodes line)) nodes
      simp [fillDomains, hnodes]
  | trans tag => simp [fillDomains]
  | defaultDomain domain line => simp [fillDomains]

theorem depth_fillAll (scope : DomainScope) (nodes : List Node) :
    (fillAll scope nodes).2.depth = scope.depth := by
  cases nodes with
  | nil => simp [fillAll]
  | cons node rest =>
      have hfirst := depth_fillDomains scope node
      have hrest := depth_fillAll (node.fillDomains scope).2 rest
      simp [fillAll, hrest, hfirst]

end

/-- An outermost tree is filled in as the first tree of all is. -/
theorem fillDomains_of_depth_eq_zero {scope : DomainScope} (hdepth : scope.depth = 0)
    (node : Node) : node.fillDomains scope = node.fillDomains .outermost := by
  cases node <;> simp only [fillDomains, DomainScope.enter_of_depth_eq_zero hdepth]

end Node

namespace Session

/-- A request to a session. -/
inductive Action where
  | render (source : Source) (context : Context)
  | parse (source : Source)
  | extract (defaultDomain code path : String)
  | locale (locale : String)
  | enable
  | disable

/-- The answer to a request; those that only change the session have none. -/
inductive Answer where
  | text (result : Except TemplateError String)
  | tree (result : Except TemplateError Node)
  | catalogues (result : Except TemplateError Catalogues)
  | done

def act (session : Session) : Action → Answer × Session
  | .render source context =>
      let (result, session) := session.render source context
      (.text result, session)
  | .parse source =>
      let (result, session) := session.parse source
      (.tree result, session)
  | .extract defaultDomain code path =>
      let (result, session) := session.extract defaultDomain code path
      (.catalogues result, session)
  | .locale locale => (.done, session.setLocale locale)
  | .enable => (.done, session.enable)
  | .disable => (.done, session.disable)

/-- The session after a sequence of requests. -/
def after (session : Session) (actions : List Action) : Session :=
  actions.foldl (fun session action => (session.act action).2) session

/-- The locale that an action leaves behind. -/
def Action.localeFrom (locale : String) : Action → String
  | .locale next => next
  | _ => locale

/-- The locale of the last locale request, or the one at the start. -/
def lastLocale (locale : String) (actions : List Action) : String :=
  actions.foldl Action.localeFrom locale

/-- What holds of a session between two requests. -/
structure Settled (session : Session) : Prop where
  outermost : session.scope.depth = 0
  quiet : session.recorder.enabled = false → session.recorder.messages = []

theorem settled_start (catalog : Catalog) : Settled (start catalog) :=
  ⟨rfl, fun _ => rfl⟩

/-! ## Reading one template -/

/-- Reading a template from an outermost scope: its tree does not depend on the session. -/
theorem parse_fst_of_depth_eq_zero {session : Session} (hdepth : session.scope.depth = 0)
    (catalog : Catalog) (source : Source) :
    (session.parse source).1 = ((start catalog).parse source).1 := by
  unfold parse
  cases source.read allTags with
  | error error => rfl
  | ok written =>
      simp only [start]
      rw [Node.fillDomains_of_depth_eq_zero hdepth]

/-- The recorder observes the tree that a template yields, and nothing else. -/
theorem recorder_parse (session : Session) (source : Source) :
    (session.parse source).2.recorder =
      match (session.parse source).1 with
      | .ok node => session.recorder.observe node
      | .error _ => session.recorder := by
  unfold parse
  cases source.read allTags <;> rfl

@[simp]
theorem catalog_parse (session : Session) (source : Source) :
    (session.parse source).2.catalog = session.catalog := by
  unfold parse
  cases source.read allTags <;> rfl

@[simp]
theorem depth_parse (session : Session) (source : Source) :
    (session.parse source).2.scope.depth = session.scope.depth := by
  unfold parse
  cases source.read allTags with
  | error error => rfl
  | ok written => exact Node.depth_fillDomains session.scope written

theorem quiet_observe {recorder : Recorder} (node : Node)
    (hquiet : recorder.enabled = false → recorder.messages = []) :
    (recorder.observe node).enabled = false → (recorder.observe node).messages = [] := by
  intro hidle
  cases henabled : recorder.enabled with
  | true => simp [Recorder.observe, henabled] at hidle
  | false => simpa [Recorder.observe, henabled] using hquiet henabled

theorem settled_parse {session : Session} (hsettled : session.Settled) (source : Source) :
    (session.parse source).2.Settled where
  outermost := by rw [depth_parse, hsettled.outermost]
  quiet := by
    rw [recorder_parse]
    cases (session.parse source).1 with
    | error error => exact hsettled.quiet
    | ok node => exact quiet_observe node hsettled.quiet

@[simp]
theorem recorder_extract (session : Session) (defaultDomain code path : String) :
    (session.extract defaultDomain code path).2.recorder = .idle := rfl

/-! ## One request -/

/-- Every request keeps a session settled. -/
theorem settled_act {session : Session} (hsettled : session.Settled) (action : Action) :
    (session.act action).2.Settled := by
  cases action with
  | render source context => exact settled_parse hsettled source
  | parse source => exact settled_parse hsettled source
  | extract defaultDomain code path =>
      have hdepth : (session.extract defaultDomain code path).2.scope.depth = 0 :=
        (depth_parse session.enable ⟨code, Path.fileName? path⟩).trans hsettled.outermost
      exact ⟨hdepth, fun _ => by simp [act, Recorder.idle]⟩
  | locale locale => exact ⟨hsettled.outermost, hsettled.quiet⟩
  | enable => exact ⟨hsettled.outermost, nofun⟩
  | disable => exact ⟨hsettled.outermost, fun _ => rfl⟩

/-- A request changes no translations, and the locale only when it says so. -/
theorem catalog_act (session : Session) (action : Action) :
    (session.act action).2.catalog =
      session.catalog.setLocale (action.localeFrom session.catalog.locale) := by
  cases action with
  | render source context => exact catalog_parse session source
  | parse source => exact catalog_parse session source
  | extract defaultDomain code path =>
      exact catalog_parse session.enable ⟨code, Path.fileName? path⟩
  | locale locale => rfl
  | enable => rfl
  | disable => rfl

/-- A settled session answers like a fresh one with its translations. -/
theorem act_fst_of_settled {session : Session} (hsettled : session.Settled) (action : Action) :
    (session.act action).1 = ((start session.catalog).act action).1 := by
  cases action with
  | render source context =>
      have htree := parse_fst_of_depth_eq_zero hsettled.outermost session.catalog source
      simp only [act, render, catalog_parse, htree]
      rfl
  | parse source =>
      simp only [act, parse_fst_of_depth_eq_zero hsettled.outermost session.catalog source]
  | extract defaultDomain code path =>
      -- Both sessions read with a recorder that has just been emptied.
      have hdepth : session.enable.scope.depth = 0 := hsettled.outermost
      have hstart : (start session.catalog).enable.scope.depth = 0 := rfl
      have htree := parse_fst_of_depth_eq_zero hdepth session.catalog ⟨code, Path.fileName? path⟩
      have hfresh := parse_fst_of_depth_eq_zero hstart session.catalog ⟨code, Path.fileName? path⟩
      simp only [act, extract, recorder_parse, htree, hfresh]
      rfl
  | locale locale => rfl
  | enable => rfl
  | disable => rfl

/-! ## Any sequence of requests -/

theorem settled_after {session : Session} (hsettled : session.Settled) (actions : List Action) :
    (session.after actions).Settled := by
  induction actions generalizing session with
  | nil => exact hsettled
  | cons action rest ih =>
      apply ih
      exact settled_act hsettled action

theorem catalog_after (session : Session) (actions : List Action) :
    (session.after actions).catalog =
      session.catalog.setLocale (lastLocale session.catalog.locale actions) := by
  induction actions generalizing session with
  | nil => rfl
  | cons action rest ih =>
      have hrest := ih (session.act action).2
      rw [catalog_act] at hrest
      exact hrest

end Session

end TemplateMessages.Template

import LiveGraph.Session.Actions

/-!
# Running sessions

Steps are carried out one after the other; callbacks carry out steps of their own when they are
called. How deep calls may lie in each other, and how many rounds a flush may take, is given from
outside; with enough of both the answer no longer depends on them.
-/

namespace LiveGraph

namespace Session

/-- Carries out a step other than a batch. -/
def runPlain [Dispatch] (step : Step) : Act Reply := do
  let w ← get
  let s := w.currentStore
  let id := w.session.current
  match step with
  | .add spec handle => add spec handle
  | .remove uri => return .bool (← Store.remove s uri)
  | .update uri props =>
    return .ofExcept .bool (← Store.update s uri props)
  | .get uri handle => lookup uri handle
  | .contains uri => return .bool (w.contains s uri)
  | .entitiesOf kind => do uris (Store.entitiesOf s kind)
  | .entities => return .uris ((w.entities s).map w.uriOf)
  | .counts => return .counts (w.counts s)
  | .link edge atFront => return .bool (← Store.link s edge atFront)
  | .unlink edge => return .bool (← Store.unlink s edge)
  | .hasEdge edge => return .bool ((w.store s).edges.contains edge)
  | .targets uri kind => return .uris (← (Store.targets s uri kind).run)
  | .sources uri kind => return .uris (← (Store.sources s uri kind).run)
  | .edges => return .edges (w.store s).edges.edges
  | .defineIndex name kind rule => do
    Store.defineIndex s name kind rule.extractor
    return .nothing
  | .firstFiled index key => do
    let e ← (Store.firstFiled s index key).run
    Act.peek fun w ↦ .uri? (e.map w.uriOf)
  | .filed index key => do uris (Store.filed s index key)
  | .listen event kind handle reaction => do
    keepSubscription handle
      (← modifyGet (·.subscribe (.store s event) (.script handle (.kind kind) reaction)))
  | .unsubscribe sub => Session.unsubscribe sub
  | .batch _ => return .nothing
  | .crash => throw .crash
  | .entity target => withEntity target showEntity
  | .getProperty target prop =>
    withEntity target fun e ↦ return .datum (.value (← (Entity.read e prop).run))
  | .setProperty target prop value =>
    withEntity target fun e ↦ return .ofUnit (← Entity.set e prop value)
  | .defineProperty target prop value handle =>
    withEntity target fun e ↦ define e prop value handle
  | .propertyNames target =>
    withEntity target fun e ↦ return .names (w.entity e).props.keys
  | .propertySignal target prop handle =>
    withEntity target fun e ↦ propertySignal e prop handle
  | .sameEntity a b => Session.sameEntity a b
  | .token target handle => Session.token target handle
  | .tokenState token => Session.tokenState token
  | .signal handle value equality => addSignal handle value equality
  | .getSignal signal => withSignal signal fun id ↦ return .datum (.value (← Signal.read id))
  | .setSignal signal value =>
    withSignal signal fun id ↦
      Act.holding (.signal id) do return .ofUnit (← Signal.set id value)
  | .watchSignal signal handle reaction =>
    withSignal signal fun id ↦ do
      keepSubscription handle (← Signal.watch id (.script handle .every reaction))
  | .disposeSignal signal =>
    withSignal signal fun id ↦ do
      modify (·.disposeSignal id)
      return .nothing
  | .isSignalDisposed signal =>
    withSignal signal fun id ↦ return .bool (w.signal id).disposed
  | .dropSignal signal => Session.dropSignal signal
  | .derive handle formula equality => addDerived handle (.formula handle formula) equality
  | .rollup target which handle =>
    withEntity target fun e ↦ addDerived handle (.rollup s which (w.uriOf e)) .same
  | .getDerived derived => withDerived derived readDerived
  | .watchDerived derived handle reaction =>
    withDerived derived fun id ↦ do
      keepSubscription handle (← Derived.watch id (.script handle .every reaction))
  | .disposeDerived derived =>
    withDerived derived fun id ↦ do
      Derived.dispose id
      return .nothing
  | .derivedInfo derived =>
    withDerived derived fun id ↦
      return .derived (w.derived id).sources.length (w.derived id).disposed
  | .dropDerived derived => Session.dropDerived derived
  | .evaluate formula => return .datum (← formula.eval)
  | .focus uri none => return .bool (← Focus.focus id uri)
  | .focus uri (some scope) => return .bool (← Focus.focusIn id scope uri)
  | .unfocus role => do
    Focus.unfocus id role
    return .nothing
  | .clearScope scope => do
    Focus.clearScope id scope
    return .nothing
  | .focused => return .uris (w.focused id)
  | .readFocus role scope => showFocus role scope
  | .watchFocus role handle reaction => Session.watchFocus role handle reaction
  | .ancestors target =>
    withEntity target fun e ↦ uris (w.current.schema.ancestors s e)
  | .follow target relation => withEntity target fun e ↦ follow e relation
  | .schema name target => showName name target
  | .resolve pattern scope => showResolution pattern scope
  | .view handle query window => openView handle query window
  | .getView view => withView view showView
  | .scroll view offset => withView view fun id ↦ do showViewAfter id (← View.scroll id offset)
  | .setLimit view limit => withView view fun id ↦ do showViewAfter id (← View.setLimit id limit)
  | .watchView view event handle reaction =>
    withView view fun id ↦ do
      keepSubscription handle (← View.watch id (.script handle (.window event) reaction))
  | .disposeView view =>
    withView view fun id ↦ do
      modify (·.shutView id)
      return .nothing
  | .dropView view => Session.dropView view
  | .iterate view handle => withView view fun id ↦ iterate id handle
  | .next iterator => Session.next iterator
  | .breakpoint location => showBreakpoint location
  | .toggle location => Session.toggle location
  | .startToggle handle location => startTask handle true (.toggle id location none)
  | .startLock handle key => startTask handle false (.lock key)
  | .startLoad handle edge target =>
    withEntity target fun e ↦ startTask handle true (.load s (w.livenessOf e) edge false)
  | .open task opening => do
    modify (·.openGate task opening)
    return .nothing
  | .poll task => Session.poll task
  | .cancel task => Session.cancel task
  | .release task => Session.release task
  | .activeKeys => return .number w.session.locks.activeKeys
  | .spawn handle target prop reaction =>
    withEntity target fun e ↦ Session.spawn handle e prop reaction
  | .finish task value aborted => Session.finish task value aborted
  | .capture handle withFocus => Session.capture handle withFocus
  | .restore source withFocus => Session.restore source withFocus
  | .reset => Session.reset
  | .describe subject => return .text (subject.elim "" w.describe)
  | .unknown name => return .unknownStep name

/-- Carries out an act on behalf of the session's present debug state. -/
def holdingCurrent {α : Type} (act : Act α) : Act α := do
  Act.holding (.state (← get).session.current) act

mutual

/-- Carries out a step. -/
def run [Dispatch] : Step → Act Reply
  | .batch steps =>
    holdingCurrent do
      batch (runAll steps)
      return .nothing
  | step => holdingCurrent (runPlain step)

/-- Carries out steps and writes down what each answers. -/
def runAll [Dispatch] : List Step → Act Unit
  | [] => pure ()
  | step :: rest => do
    let reply ← run step
    modify (·.note (.reply reply))
    runAll rest

end

end Session

end LiveGraph

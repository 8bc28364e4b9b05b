import DomainryAgent.Workers.AtMostOnce
import DomainryAgent.WorkBudget
import DomainryAgent.Dispatch
import DomainryAgent.AgentTask.Recovery
import DomainryAgent.Admissions
import DomainryAgent.Handovers
import DomainryAgent.AgentTask.Executed
import DomainryAgent.Dialog.Isolation
import DomainryAgent.Interactive.Exclusion
import DomainryAgent.Improvements
import DomainryAgent.Retention
import DomainryAgent.Cleanup
import DomainryAgent.ContextSize
import DomainryAgent.Requirements
import DomainryAgent.PeerQuestions
import DomainryAgent.Durability

import RequestAudit.Decision.Document
import RequestAudit.Evaluator
import RequestAudit.Main
import RequestAudit.Policy.Document
import RequestAudit.Policy.Loading
import RequestAudit.Policy.Offence
import RequestAudit.Program
import RequestAudit.Proofs.Acceptance
import RequestAudit.Proofs.Accounts
import RequestAudit.Proofs.ArgumentLists
import RequestAudit.Proofs.ArgumentParts
import RequestAudit.Proofs.DeclaredSettings
import RequestAudit.Proofs.Dependence
import RequestAudit.Proofs.FileStore
import RequestAudit.Proofs.FirstOffence
import RequestAudit.Proofs.FlushedEntries
import RequestAudit.Proofs.GrowingFiles
import RequestAudit.Proofs.InterruptedRuns
import RequestAudit.Proofs.JoinedReplays
import RequestAudit.Proofs.JsonText
import RequestAudit.Proofs.Lines
import RequestAudit.Proofs.LogFrame
import RequestAudit.Proofs.LogLines
import RequestAudit.Proofs.LogWriter
import RequestAudit.Proofs.NormalPolicies
import RequestAudit.Proofs.OmittedNames
import RequestAudit.Proofs.PathSpecs
import RequestAudit.Proofs.PolicyData
import RequestAudit.Proofs.PolicyJson
import RequestAudit.Proofs.PolicyText
import RequestAudit.Proofs.RecorderRuns
import RequestAudit.Proofs.Reference
import RequestAudit.Proofs.RequestLines
import RequestAudit.Proofs.Requesters
import RequestAudit.Proofs.ResolvedPaths
import RequestAudit.Proofs.ResourceSpecs
import RequestAudit.Proofs.Results
import RequestAudit.Proofs.RuleEdits
import RequestAudit.Proofs.RuleSplits
import RequestAudit.Proofs.SettledValues
import RequestAudit.Proofs.SharedLog
import RequestAudit.Proofs.ShownData
import RequestAudit.Proofs.SpecMeaning
import RequestAudit.Proofs.StageUnion
import RequestAudit.Proofs.YamlBlocks
import RequestAudit.Proofs.YamlCharacters
import RequestAudit.Proofs.YamlData
import RequestAudit.Proofs.YamlLayout
import RequestAudit.Proofs.YamlScalars
import RequestAudit.Proofs.YamlScans
import RequestAudit.Proofs.YamlSpots
import RequestAudit.Proofs.YamlTokens
import RequestAudit.Request.Document
import RequestAudit.Text.Utf8
import RequestAudit.Yaml.Node
import RequestAudit.Yaml.Places
import RequestAudit.Yaml.Property
import RequestAudit.Yaml.Scalar.Block
import RequestAudit.Yaml.Scalar.Plain
import RequestAudit.Yaml.Scalar.Quoted
import RequestAudit.Yaml.Token
import RequestAudit.Yaml.Writer

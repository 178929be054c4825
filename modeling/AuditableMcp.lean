import AuditableMcp.Validity
import AuditableMcp.Host.Durability
import AuditableMcp.Host.Uniqueness
import AuditableMcp.Host.Repeats
import AuditableMcp.Host.Resumption
import AuditableMcp.Host.Closing
import AuditableMcp.Host.Receipts
import AuditableMcp.Host.Domain
import AuditableMcp.Host.Flagging
import AuditableMcp.Verify.Agreement
import AuditableMcp.Verify.TamperEvidence
import AuditableMcp.Verify.Sessions
import AuditableMcp.Verify.Completeness
import AuditableMcp.Verify.Reporting
import AuditableMcp.Verify.Visibility
import AuditableMcp.Verify.Pinned
import AuditableMcp.L2.Encodings
import AuditableMcp.L2.Provisioning
import AuditableMcp.Tool.Audited
import AuditableMcp.Tool.Keys
import AuditableMcp.Tool.Refusals
import AuditableMcp.Mcp.Deadlines
import AuditableMcp.Mcp.Conservation
import AuditableMcp.Mcp.Tokens
import AuditableMcp.Mcp.Answers
import AuditableMcp.Mcp.Conclusions
import AuditableMcp.Mcp.Sessions
import AuditableMcp.Mcp.HostRetries
import AuditableMcp.Mcp.HostOrder
